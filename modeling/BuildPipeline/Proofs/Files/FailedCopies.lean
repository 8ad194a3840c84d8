import BuildPipeline.Proofs.Files.PathCopies

/-!
# Copies that fail

A copy stops where something fails and takes nothing back.  By then it has made directories, and
some files of the source may have their copies, the last of which can be cut short.

* `MakesSome` is what is left when directories could not all be made.
* `Fills` is an invariant of a copy that goes on: outside the target nothing changes, and files in
  the target have texts that they may have.  `Copying.filled` keeps it through all calls, also where
  the target is in the source and copies are copied again.  Where the copy fails, at most one file
  has only a part of such a text (`CutAt`).
* `PathCopying.leaves`: what a copy between paths leaves in place of something that was cleared.
-/

namespace BuildPipeline

namespace FileChange

variable {α β : Type} {files next : Files} {change : FileChange α} {rest : α → FileChange β}
  {error : FileError}

/-- One of two changes has failed. -/
theorem bind_eq_error (hbind : (change >>= rest).run files = (.error error, next)) :
    change.run files = (.error error, next) ∨ ∃ value middle,
      change.run files = (.ok value, middle) ∧ (rest value).run middle = (.error error, next) := by
  rcases hchange : change.run files with ⟨outcome, middle⟩
  cases outcome with
  | ok value =>
      rw [run_bind_of_ok hchange] at hbind
      exact .inr ⟨value, middle, rfl, hbind⟩
  | error other =>
      rw [run_bind_of_error hchange] at hbind
      cases hbind
      exact .inl rfl

theorem lift_eq_error {outcome : Except FileError α}
    (hlift : (outcome : FileChange α).run files = (.error error, next)) : next = files := by
  cases outcome with
  | error other =>
      cases hlift
      rfl
  | ok value => cases congrArg Prod.fst hlift

end FileChange

namespace Files

open BuildPipeline.Path (IsName)

/-! ## Directories that could not all be made -/

section Making

variable {files next : Files} {location : Location} {pieces : List String}
  {places : List Location}

/-- Some directories may be new, and nothing else is. -/
structure MakesSome (files next : Files) (places : List Location) : Prop where
  wellFormed : next.WellFormed
  workingDirectory : next.workingDirectory = files.workingDirectory
  item? : ∀ place, next.item? place = files.item? place ∨
    files.item? place = none ∧ next.item? place = some .directory ∧ place ∈ places

theorem MakesDirectories.makesSome (hmakes : MakesDirectories files next places) :
    MakesSome files next places :=
  ⟨hmakes.wellFormed, hmakes.workingDirectory, hmakes.item?_cases⟩

namespace MakesSome

theorem refl (hfiles : files.WellFormed) (places : List Location) : MakesSome files files places :=
  ⟨hfiles, rfl, fun _ => .inl rfl⟩

theorem mono {more : List Location} (hmakes : MakesSome files next places)
    (hmore : ∀ place ∈ places, place ∈ more) : MakesSome files next more :=
  ⟨hmakes.wellFormed, hmakes.workingDirectory, fun place => (hmakes.item? place).imp_right
    fun ⟨hmissing, hmade, hmem⟩ => ⟨hmissing, hmade, hmore place hmem⟩⟩

/-- Directories that are there stay. -/
theorem directory (hmakes : MakesSome files next places)
    (hdirectory : files.item? location = some .directory) :
    next.item? location = some .directory := by
  rcases hmakes.item? location with hsame | ⟨-, hmade, -⟩
  · exact hsame.trans hdirectory
  · exact hmade

/-- No file is new. -/
theorem file (hmakes : MakesSome files next places) {text : String}
    (hfile : next.item? location = some (.file text)) :
    files.item? location = some (.file text) := by
  rcases hmakes.item? location with hsame | ⟨-, hmade, -⟩
  · exact hsame.symm.trans hfile
  · cases hmade.symm.trans hfile

/-- One directory is made, and then others. -/
theorem of_set {name : String} (hmissing : files.item? (location ++ [name]) = none)
    (hmakes : MakesSome (files.set (location ++ [name]) .directory) next places)
    (hmem : location ++ [name] ∈ places) : MakesSome files next places := by
  refine ⟨hmakes.wellFormed, hmakes.workingDirectory, fun place => ?_⟩
  have hcases := hmakes.item? place
  rw [item?_set (by simp)] at hcases
  by_cases hplace : place = location ++ [name]
  · rw [if_pos hplace] at hcases
    refine .inr ⟨hplace ▸ hmissing, ?_, hplace ▸ hmem⟩
    rcases hcases with hsame | ⟨hnone, -⟩
    · exact hsame
    · cases hnone
  · rwa [if_neg hplace] at hcases

end MakesSome

/-- Whether or not all directories can be made, those that are new lie on the way. -/
theorem makesSome_makeFrom (hfiles : files.WellFormed)
    (hstart : files.item? location = some .directory) :
    MakesSome files ((makeFrom location pieces).run files).2 (Path.way location pieces) := by
  -- By induction on the pieces, from a directory that is there.
  induction pieces generalizing location files with
  | nil => exact .refl hfiles _
  | cons piece rest ih =>
      have hlater : ∀ place ∈ Path.way (Path.step location piece) rest,
          place ∈ Path.way location (piece :: rest) := fun place hplace =>
        List.mem_cons_of_mem location hplace
      rw [makeFrom]
      rcases Path.piece_cases piece with hstay | rfl | hname
      · rw [if_pos hstay]
        rw [Path.step_of_isNoStep hstay] at hlater
        exact (ih hfiles hstart).mono hlater
      · rw [if_neg (by decide), if_pos rfl]
        rw [Path.step_up] at hlater
        exact (ih hfiles (hfiles.dropLast hstart)).mono hlater
      · rw [hname.step] at hlater
        rw [if_neg (by rw [hname.1]; exact Bool.false_ne_true), if_neg hname.2]
        split
        · exact .refl hfiles _
        · rw [FileChange.run_get_bind]
          split
          · next hitem => exact (ih hfiles hitem).mono hlater
          · exact .refl hfiles _
          · next hitem =>
              cases hfault : files.faults.make (location ++ [piece]) with
              | some error => exact .refl hfiles _
              | none =>
                  have hplain : files.item? (location ++ [piece]) ≠ some .directory := by
                    simp [hitem]
                  have hnew : (files.set (location ++ [piece]) .directory).item?
                      (location ++ [piece]) = some .directory := by
                    rw [item?_set (by simp), if_pos rfl]
                  have hmakes := ih (hfiles.set hname hstart hplain .directory) hnew
                  exact (hmakes.mono hlater).of_set hitem (hlater _ Path.mem_way_start)

theorem makesSome_makeAll {path : String} (hfiles : files.WellFormed)
    (hstart : files.item? (files.start path) = some .directory) :
    MakesSome files ((makeAll path).run files).2 (files.way path) := by
  by_cases hlength : Path.longest < path.utf8ByteSize
  · have hrun : (makeAll path).run files = (.error .nameTooLong, files) := by
      simp only [makeAll, if_pos hlength]
      rfl
    rw [hrun]
    exact .refl hfiles _
  · rw [run_makeAll hlength]
    exact makesSome_makeFrom hfiles hstart

end Making

/-! ## What a copy fills its target with -/

/-- The state of a copy between two locations.  The target is a directory, outside of it everything
is as it was, and in it a file can only have a text that it may have. -/
structure Fills (before : Files) (target : Location) (may : Location → String → Prop)
    (now : Files) : Prop where
  wellFormed : now.WellFormed
  workingDirectory : now.workingDirectory = before.workingDirectory
  root : now.item? target = some .directory
  outside : ∀ place, ¬ target <+: place → now.item? place = before.item? place
  inside : ∀ rest text, now.item? (target ++ rest) = some (.file text) → may rest text

/-- A file has a text that it may have, but for one that was cut short. -/
def CutAt (may : Location → String → Prop) (cut : Option Location) (rest : Location)
    (text : String) : Prop :=
  may rest text ∨ cut = some rest ∧ ∃ whole, may rest whole ∧ text.toList <+: whole.toList

theorem CutAt.mono {may more : Location → String → Prop} {cut : Option Location} {rest : Location}
    {text : String} (hcut : CutAt may cut rest text)
    (hmore : ∀ rest text, may rest text → more rest text) : CutAt more cut rest text :=
  hcut.imp (hmore rest text) fun ⟨hplace, whole, hwhole, hpart⟩ =>
    ⟨hplace, whole, hmore rest whole hwhole, hpart⟩

theorem cutText_prefix (count : Nat) (text : String) :
    (cutText count text).toList <+: text.toList := by
  rw [cutText, String.toList_ofList]
  exact List.take_prefix count _

/-- How a copy has filled its target in the end.  Only the last file of one that fails is not
complete. -/
structure Filled (before : Files) (target : Location) (may : Location → String → Prop)
    (outcome : Except FileError Unit × Files) : Prop where
  complete : outcome.1 = .ok () → Fills before target may outcome.2
  cut : ∃ cut, Fills before target (CutAt may cut) outcome.2

section Filling

variable {before now : Files} {source target rest : Location} {may : Location → String → Prop}

theorem Fills.mono {more : Location → String → Prop} (hfills : Fills before target may now)
    (hmore : ∀ rest text, may rest text → more rest text) : Fills before target more now :=
  ⟨hfills.wellFormed, hfills.workingDirectory, hfills.root, hfills.outside,
    fun rest text hfile => hmore rest text (hfills.inside rest text hfile)⟩

theorem Fills.filled (hfills : Fills before target may now) (result : Except FileError Unit) :
    Filled before target may (result, now) :=
  ⟨fun _ => hfills, none, hfills.mono fun _ _ => .inl⟩

/-- A change that fails after what has filled the target. -/
theorem Filled.error {outcome : Except FileError Unit × Files}
    (hfilled : Filled before target may outcome) (error : FileError) :
    Filled before target may (.error error, outcome.2) :=
  ⟨(nomatch ·), hfilled.cut⟩

/-- Directories are made in the target. -/
theorem Fills.makes (hfills : Fills before target may now)
    (hnames : ∀ name ∈ target ++ rest, IsName name) :
    Fills before target may ((makeFrom [] (target ++ rest)).run now).2 := by
  have hmakes : MakesSome now ((makeFrom [] (target ++ rest)).run now).2
      (Path.way [] (target ++ rest)) :=
    makesSome_makeFrom hfills.wellFormed (item?_nil now)
  refine ⟨hmakes.wellFormed, hmakes.workingDirectory.trans hfills.workingDirectory,
    hmakes.directory hfills.root, fun place houtside => ?_, fun below text hfile => ?_⟩
  · rw [← hfills.outside place houtside]
    rcases hmakes.item? place with hsame | ⟨hmissing, -, hmem⟩
    · exact hsame
    · -- What is not in the target and on the way to its inside is above it.
      have hextends : place <+: target ++ rest := ((Path.mem_way_of_names hnames).mp hmem).2
      have habove : place <+: target :=
        (List.prefix_or_prefix_of_prefix hextends (List.prefix_append _ _)).resolve_right houtside
      have hproper : place ≠ target := fun heq => houtside (heq ▸ List.prefix_rfl)
      have hdirectory := hfills.wellFormed.directory_of_prefix (by rw [hfills.root]; rfl) habove
        hproper
      cases hmissing.symm.trans hdirectory
  · exact hfills.inside below text (hmakes.file hfile)

/-- A file is put into the target. -/
theorem Fills.set {text : String} (hfills : Fills before target may now) {name : String}
    (hname : IsName name) (hparent : now.item? (target ++ rest) = some .directory)
    (hplain : now.item? (target ++ rest ++ [name]) ≠ some .directory)
    (hmay : may (rest ++ [name]) text) :
    Fills before target may (now.set (target ++ rest ++ [name]) (.file text)) := by
  have hset : ∀ place, (now.set (target ++ rest ++ [name]) (.file text)).item? place =
      if place = target ++ rest ++ [name] then some (.file text) else now.item? place :=
    fun place => item?_set (by simp) _
  refine ⟨hfills.wellFormed.set hname hparent hplain _, hfills.workingDirectory, ?_,
    fun place houtside => ?_, fun below other hfile => ?_⟩
  · rw [hset, if_neg (by simp), hfills.root]
  · have hother : place ≠ target ++ rest ++ [name] := by
      rintro rfl
      exact houtside (by simp)
    rw [hset, if_neg hother, hfills.outside place houtside]
  · rw [hset] at hfile
    split at hfile
    · next hsame =>
        cases hfile
        rw [List.append_assoc] at hsame
        exact (List.append_cancel_left hsame) ▸ hmay
    · exact hfills.inside below other hfile

/-- A file of the source is below it, because the source stays a directory. -/
theorem Fills.exists_above (hfills : Fills before target may now)
    (hsource : before.item? source = some .directory) (hoff : ¬ target <+: source) {text : String}
    (hfile : now.item? (source ++ rest) = some (.file text)) :
    ∃ above name, rest = above ++ [name] := by
  refine (List.eq_nil_or_concat' rest).resolve_left ?_
  rintro rfl
  rw [List.append_nil, hfills.outside source hoff, hsource] at hfile
  cases hfile

theorem Fills.of_make (hfills : Fills before target may now) {place : Location}
    {outcome : Except FileError Location} {made : Files} (hplace : place = target ++ rest)
    (hnames : ∀ name ∈ place, IsName name)
    (hmake : (makeFrom [] place).run now = (outcome, made)) : Fills before target may made := by
  subst hplace
  have hmade := hfills.makes hnames
  rwa [hmake] at hmade

/-- A source that is not in the target has nothing in a place of the target. -/
theorem ne_of_off {origin place : Location} (hoff : ¬ target <+: source)
    (horigin : origin = source ++ rest) (hplace : place = target ++ rest) : origin ≠ place := by
  rintro rfl
  exact hoff (List.append_cancel_right (horigin.symm.trans hplace) ▸ List.prefix_rfl)

variable (hsource : before.item? source = some .directory) (hoff : ¬ target <+: source)

include hsource hoff

/-- The directory for a file of the source is made. -/
theorem Fills.of_makeParent {origin place : Location} {outcome : Except FileError Location}
    {made : Files} {whole : String} (hfills : Fills before target may now)
    (horigin : origin = source ++ rest) (hplace : place = target ++ rest)
    (htarget : ∀ name ∈ place, IsName name) (hitem : now.item? origin = some (.file whole))
    (hmake : (makeFrom [] place.dropLast).run now = (outcome, made)) :
    Fills before target may made := by
  obtain ⟨above, name, rfl⟩ := hfills.exists_above hsource hoff (horigin ▸ hitem)
  have hparent : place.dropLast = target ++ above := by
    rw [hplace, ← List.append_assoc, List.dropLast_concat]
  exact hfills.of_make hparent (forall_isName_dropLast htarget) hmake

variable (hreads : ∀ now, Fills before target may now → ∀ rest text,
    now.item? (source ++ rest) = some (.file text) → may rest text)

include hreads

/-- What is written of a file of the source. -/
theorem Fills.set_file {origin place parent : Location} {made : Files} {whole text : String}
    (hfills : Fills before target may now) (horigin : origin = source ++ rest)
    (hplace : place = target ++ rest) (htarget : ∀ name ∈ place, IsName name)
    (hitem : now.item? origin = some (.file whole))
    (hmake : (makeFrom [] place.dropLast).run now = (.ok parent, made))
    (hplain : made.item? place ≠ some .directory) {more : Location → String → Prop}
    (hmore : ∀ rest text, may rest text → more rest text)
    (htext : may rest whole → more rest text) :
    Fills before target more (made.set place (.file text)) := by
  have hmade := hfills.of_makeParent hsource hoff horigin hplace htarget hitem hmake
  rw [horigin] at hitem
  have hmay := hreads _ hfills _ whole hitem
  obtain ⟨above, name, rfl⟩ := hfills.exists_above hsource hoff hitem
  obtain ⟨hmakes, hway⟩ :=
    makeFrom_names hfills.wellFormed (forall_isName_dropLast htarget) hmake
  have hparent := hmakes.made _ ((hway _).mpr List.prefix_rfl)
  rw [← List.append_assoc] at hplace
  subst hplace
  rw [List.dropLast_concat] at hparent
  exact (hmade.mono hmore).set (htarget name (by simp)) hparent hplain (htext hmay)

/-- However a copy ends, its target is filled with texts that may be there, if those of the source
may be. -/
theorem Copying.filled {depth : Nat} {origin place : Location} {names : Option (List String)}
    {files : Files} {outcome : Except FileError Unit × Files}
    (hcopying : Copying depth origin place names files outcome) (horigin : origin = source ++ rest)
    (hplace : place = target ++ rest) (htarget : ∀ name ∈ place, IsName name)
    (hnames : ∀ name ∈ names.getD [], IsName name) (hfills : Fills before target may files) :
    Filled before target may outcome := by
  induction hcopying generalizing rest with
  | tooLong | missing | done => exact hfills.filled _
  | fileRefused _ hitem hmake | fileWithheld _ hitem hmake _ =>
      exact (hfills.of_makeParent hsource hoff horigin hplace htarget hitem hmake).filled _
  | @fileCut _ _ _ _ _ _ text count _ _ hitem hmake _ hplain _ =>
      rw [if_neg (ne_of_off hoff horigin hplace)]
      exact ⟨(nomatch ·), some rest, hfills.set_file hsource hoff hreads horigin hplace
        htarget hitem hmake hplain (fun _ _ => .inl)
        fun hmay => .inr ⟨rfl, text, hmay, cutText_prefix count text⟩⟩
  | file _ hitem hmake _ hplain _ =>
      rw [if_neg (ne_of_off hoff horigin hplace)]
      exact (hfills.set_file hsource hoff hreads horigin hplace htarget hitem hmake hplain
        (fun _ _ => id) id).filled _
  | directoryRefused _ _ hmake => exact (hfills.of_make hplace htarget hmake).filled _
  | directory _ _ hmake _ _ ih =>
      have hmade := hfills.of_make hplace htarget hmake
      exact ih horigin hplace htarget
        (fun name hname => isName_of_mem_childNames hmade.wellFormed hname) hmade
  | directoryCut _ _ hmake _ _ ih =>
      have hmade := hfills.of_make hplace htarget hmake
      exact (ih horigin hplace htarget (fun name hname => isName_of_mem_childNames hmade.wellFormed
        (List.mem_of_mem_take hname)) hmade).error _
  | @childFailed _ _ _ _ _ name _ later _ ih =>
      obtain ⟨hname, -⟩ := List.forall_mem_cons.mp hnames
      subst horigin hplace
      exact ih (List.append_assoc source rest [name]) (List.append_assoc target rest [name])
        (forall_isName_concat htarget hname) (fun _ hmem => absurd hmem List.not_mem_nil) hfills
  | @child _ _ _ _ _ name later _ _ _ ihChild ihRest =>
      obtain ⟨hname, hlater⟩ := List.forall_mem_cons.mp hnames
      refine ihRest horigin hplace htarget hlater ?_
      subst horigin hplace
      exact (ihChild (List.append_assoc source rest [name]) (List.append_assoc target rest [name])
        (forall_isName_concat htarget hname) (fun _ hmem => absurd hmem List.not_mem_nil)
        hfills).complete rfl

end Filling

/-! ## What a copy between paths leaves -/

variable {files made next : Files} {source target : String} {error : FileError}

/-- The files that a copy may leave: those of the source, and if neither source nor target is in the
other, then every file has the place that it has there. -/
def FromSource (files : Files) (source target : Location) (rest : Location) (whole : String) :
    Prop :=
  ∃ below, files.item? (source ++ below) = some (.file whole) ∧ (Apart source target → below = rest)

/-- What is left of a copy to a place where nothing was.  Directories may have been made on the way.
The files at the target come out of the source, and at most one of them is not complete. -/
structure Leaves (files next : Files) (source target : String) : Prop where
  others : ∀ place, ¬ files.goal target <+: place → next.item? place = files.item? place ∨
    files.item? place = none ∧ next.item? place = some .directory ∧ place ∈ files.way target
  texts : ∃ cut, ∀ rest text, next.item? (files.goal target ++ rest) = some (.file text) →
    CutAt (FromSource files (files.goal source) (files.goal target)) cut rest text

theorem MakesSome.leaves (hmakes : MakesSome files next (files.way target))
    (hfiles : files.WellFormed) (habsent : files.item? (files.goal target) = none) :
    Leaves files next source target := by
  refine ⟨fun place _ => hmakes.item? place, none, fun rest text hfile => ?_⟩
  have hbelow := hfiles.item?_of_absent habsent (List.prefix_append _ rest)
  cases hbelow.symm.trans (hmakes.file hfile)

/-- A file that could not be put in its place is not there, or cut short. -/
theorem placeFile_eq_error (hplace : (placeFile source target).run made = (.error error, next)) :
    next = made ∨ ∃ text place origin count, made.read source = .ok text ∧
      made.writable target = .ok place ∧ made.locate source = .ok origin ∧
      next = made.set place (.file (cutText count (if origin = place then "" else text))) := by
  rw [placeFile, FileChange.run_get_bind] at hplace
  rcases FileChange.bind_eq_error hplace with hread | ⟨text, _, hread, hplaced⟩
  · exact .inl (FileChange.lift_eq_error hread)
  obtain ⟨hread, rfl⟩ := FileChange.lift_eq_ok hread
  rcases FileChange.bind_eq_error hplaced with hwritable | ⟨place, _, hwritable, hfound⟩
  · exact .inl (FileChange.lift_eq_error hwritable)
  obtain ⟨hwritable, rfl⟩ := FileChange.lift_eq_ok hwritable
  rcases FileChange.bind_eq_error hfound with hlocate | ⟨origin, _, hlocate, hwrite⟩
  · exact .inl (FileChange.lift_eq_error hlocate)
  obtain ⟨hlocate, rfl⟩ := FileChange.lift_eq_ok hlocate
  rcases overwrite_eq_error hwrite with hsame | ⟨count, hcut⟩
  · exact .inl hsame.symm
  · exact .inr ⟨text, place, origin, count, hread, hwritable, hlocate, hcut.symm⟩

/-- The directory of a file could not be made, or the file could not be put there. -/
theorem copyFile_eq_error (hcopy : (copyFile source target).run files = (.error error, next)) :
    (∃ parent, Path.parent? target = some parent ∧ parent ≠ "" ∧
      (makeAll parent).run files = (.error error, next)) ∨
      ∃ made, ParentMade files target made ∧
        (placeFile source target).run made = (.error error, next) := by
  unfold copyFile at hcopy
  split at hcopy
  · next parent hparent =>
      split at hcopy
      · next hnonempty =>
          rcases FileChange.bind_eq_error hcopy with hmake | ⟨place, made, hmake, hplace⟩
          · exact .inl ⟨parent, hparent, hnonempty, hmake⟩
          · exact .inr ⟨made, .made hparent hnonempty hmake, hplace⟩
      · next hempty =>
          refine .inr ⟨files, .idle fun other hother => ?_, hcopy⟩
          obtain rfl := Option.some.inj (hother.symm.trans hparent)
          exact not_not.mp hempty
  · next hparent =>
      refine .inr ⟨files, .idle fun other hother => ?_, hcopy⟩
      cases hother.symm.trans hparent

/-- A file that is not complete is all that there is at the target. -/
theorem Placing.leaves {text name : String} {front : List String} (count : Nat)
    (hplacing : Placing files made source target text front name) (hfiles : files.WellFormed)
    (habsent : files.item? (files.goal target) = none) :
    Leaves files (made.set (files.goal target) (.file (cutText count text))) source target := by
  have hsome := hplacing.makes.makesSome
  have hset : ∀ place, (made.set (files.goal target) (.file (cutText count text))).item? place =
      if place = files.goal target then some (.file (cutText count text))
      else made.item? place := by
    rw [hplacing.goal]
    exact fun place => item?_set (by simp) _
  refine ⟨fun place houtside => ?_, some [], fun rest written hfile => ?_⟩
  · have hother : place ≠ files.goal target := fun heq => houtside (heq ▸ List.prefix_rfl)
    rw [hset, if_neg hother]
    exact (hsome.item? place).imp_right fun ⟨hmissing, hmade, hmem⟩ =>
      ⟨hmissing, hmade, hplacing.mem_way hmem⟩
  · rw [hset] at hfile
    split at hfile
    · next hroot =>
        obtain rfl := List.self_eq_append_right.mp hroot.symm
        cases hfile
        exact .inr ⟨rfl, text, ⟨[], by rw [List.append_nil, hplacing.item_source], fun _ => rfl⟩,
          cutText_prefix count text⟩
    · have hbelow := hfiles.item?_of_absent habsent (List.prefix_append _ rest)
      cases hbelow.symm.trans (hsome.file hfile)

section Clear

variable (hfiles : files.WellFormed) (hclear : files.HasClearWay (files.goal source) target)
  (habsent : files.item? (files.goal target) = none)

include hfiles hclear habsent

/-- What a file leaves that could not be copied. -/
theorem leaves_of_file {front : List String} {name : String}
    (hpieces : Path.pieces target = front ++ [name]) (hname : IsName name)
    (hcopy : (copyFile source target).run files = (.error error, next)) :
    Leaves files next source target := by
  rcases copyFile_eq_error hcopy with ⟨parent, hfound, hnonempty, hmake⟩ | ⟨made, hparent, hplace⟩
  · obtain ⟨other, hother, hsteps, habsolute⟩ := Path.exists_parent? hpieces hname.1
    obtain rfl := Option.some.inj (hother.symm.trans hfound)
    have hstart : files.start other = files.start target := by
      rw [start, start, habsolute.resolve_right fun hsame => hnonempty hsame.1]
    have hmakes := makesSome_makeAll hfiles (hstart ▸ hclear.start.1)
    rw [hmake] at hmakes
    refine (hmakes.mono fun place hplace => ?_).leaves hfiles habsent
    rw [way, hstart, ← Path.mem_way_steps, hsteps, Path.mem_way_steps] at hplace
    rw [way, hpieces, Path.mem_way_append]
    exact .inl hplace
  · rcases placeFile_eq_error hplace with rfl | ⟨text, place, origin, count, hread, hwritable,
      hlocate, rfl⟩
    · have hmakes := (hparent.makes hfiles hclear.start.1 hpieces hname).makesSome
      refine (hmakes.mono fun place hplace => ?_).leaves hfiles habsent
      rw [way, hpieces, Path.mem_way_append]
      exact .inl hplace
    · obtain ⟨rfl, rfl, front, name, hplacing⟩ :=
        hparent.exists_placing hfiles hclear.start.1 hread hwritable hlocate
      have hother : files.goal source ≠ files.goal target := fun heq => by
        cases habsent.symm.trans (heq ▸ hplacing.item_source)
      rw [if_neg hother]
      exact hplacing.leaves count hfiles habsent

/-- The target of a directory is filled with what the directory holds. -/
theorem leaves_of_tree {place origin : Location} {depth : Nat}
    {outcome : Except FileError Unit × Files} (hsource : files.isDirectory source = true)
    (hmake : (makeAll target).run files = (.ok place, made))
    (hlocate : made.locate source = .ok origin)
    (hcourse : Copying depth origin place none made outcome) :
    Leaves files outcome.2 source target := by
  have hdirectory := isDirectory_eq_true hfiles hsource
  obtain ⟨rfl, -, -, hmakes⟩ := makeAll_eq_ok hfiles hclear.start.1 hmake
  have hsome := hmakes.makesSome
  obtain ⟨rfl, -⟩ := locate_eq_ok hmakes.wellFormed hlocate
  rw [goal_congr hmakes.workingDirectory] at hcourse
  have hoff : ¬ files.goal target <+: files.goal source := fun hinside => by
    cases (hfiles.item?_of_absent habsent hinside).symm.trans hdirectory
  have hplace : made.item? (files.goal target) = some .directory :=
    hmakes.made _ Path.goal_mem_way
  have hempty : ∀ rest text, made.item? (files.goal target ++ rest) ≠ some (.file text) := by
    intro rest text hfile
    have hbelow := hfiles.item?_of_absent habsent (List.prefix_append _ rest)
    cases hbelow.symm.trans (hsome.file hfile)
  have hreads : ∀ now, Fills made (files.goal target)
      (FromSource files (files.goal source) (files.goal target)) now → ∀ rest text,
      now.item? (files.goal source ++ rest) = some (.file text) →
        FromSource files (files.goal source) (files.goal target) rest text := by
    intro now hnow rest text hfile
    -- The source can hold the target, and then copies are copied again.
    by_cases hinside : files.goal target <+: files.goal source ++ rest
    · obtain ⟨deeper, hdeeper⟩ := hinside
      obtain ⟨below, hbelow, -⟩ := hnow.inside deeper text (hdeeper ▸ hfile)
      exact ⟨below, hbelow, fun hapart =>
        absurd (hdeeper ▸ List.prefix_append _ _) (hapart.not_prefix_append rest)⟩
    · rw [hnow.outside _ hinside] at hfile
      exact ⟨rest, hsome.file hfile, fun _ => rfl⟩
  have hstart : Fills made (files.goal target)
      (FromSource files (files.goal source) (files.goal target)) made :=
    ⟨hmakes.wellFormed, rfl, hplace, fun _ _ => rfl,
      fun rest text hfile => absurd hfile (hempty rest text)⟩
  obtain ⟨cut, hfills⟩ := (hcourse.filled (hsome.directory hdirectory) hoff hreads
    (List.append_nil _).symm (List.append_nil _).symm
    (hmakes.wellFormed.names (by rw [hplace]; rfl)) (fun _ hmem => absurd hmem List.not_mem_nil)
    hstart).cut
  refine ⟨fun passed houtside => ?_, cut, hfills.inside⟩
  rw [hfills.outside passed houtside]
  exact hsome.item? passed

/-- What a copy leaves that fails. -/
theorem PathCopying.leaves {depth : Nat} {front : List String} {name : String}
    (hpieces : Path.pieces target = front ++ [name]) (hname : IsName name)
    (hcourse : PathCopying depth source target files (.error error, next)) :
    Leaves files next source target := by
  generalize houtcome : ((.error error, next) : Except FileError Unit × Files) = outcome at hcourse
  cases hcourse with
  | refused hsource hmake =>
      cases houtcome
      have hmakes : MakesSome files _ (files.way target) :=
        makesSome_makeAll hfiles hclear.start.1
      rw [hmake] at hmakes
      exact hmakes.leaves hfiles habsent
  | lost hsource hmake hlocate =>
      cases houtcome
      obtain ⟨-, -, -, hmakes⟩ := makeAll_eq_ok hfiles hclear.start.1 hmake
      exact hmakes.makesSome.leaves hfiles habsent
  | directory hsource hmake hlocate hcourse =>
      subst houtcome
      exact leaves_of_tree hfiles hclear habsent hsource hmake hlocate hcourse
  | file hsource => exact leaves_of_file hfiles hclear habsent hpieces hname houtcome.symm

end Clear

end Files

end BuildPipeline
