import BuildPipeline.Artifact.Store
import BuildPipeline.Proofs.Files.PathCopies

/-!
# Artifacts in a directory

A store keeps the artifact of a name at a path.  A publication drops what an earlier run left there
and copies the source to it.  The store may lie in the source, as the default one does when the
working directory is published, and the source may lie in the entry that is dropped.

* `Publishing` is the course of a publication.  There is exactly one, and its calls are nested no
  deeper than a path is long.
* `stored_of_cleared`: a publication that succeeds has a source beside the entry, and has copied it
  to a place that was cleared; in all other positions of source and entry the copy fails.
* `publication_ends_with_source_tree` joins these.  It has a condition on the path of the entry: one
  over a directory that is missing is not found when the earlier artifact is to be dropped, and can
  be followed when the copy has made the directory.  `stale_entry_outlives_publication` shows such
  a run.
-/

namespace BuildPipeline.DirectoryStore

open Files (Apart Copied Copying PathCopying)

variable {root name source : String} {files cleared stored : Files}

/-! ## The course of a publication -/

/-- What was stored under a path is dropped, if the path leads anywhere. -/
inductive Clears (files : Files) (target : String) : Files → Prop
  | removed {place : Location} {cleared : Files} (hlocate : files.locate target = .ok place)
      (hremove : (Files.remove place).run files = (.ok (), cleared)) : Clears files target cleared
  | absent (hlocate : files.locate target = .error .notFound) : Clears files target files

/-- The course of a publication. -/
inductive Publishing (depth : Nat) (root name source : String) (files : Files) :
    Except ArtifactError Unit × Files → Prop
  | invalidName (hname : isArtifactName name = false) :
      Publishing depth root name source files (.error (.invalidName name), files)
  | noSource (hname : isArtifactName name = true) (hsource : files.isPresent source = false) :
      Publishing depth root name source files (.error (.store name (.noSource source)), files)
  /-- It cannot be told whether there is an earlier artifact. -/
  | unreadable {error : FileError} (hname : isArtifactName name = true)
      (hsource : files.isPresent source = true)
      (hlocate : files.locate (Path.join root name) = .error error) (herror : error ≠ .notFound) :
      Publishing depth root name source files (.error (.store name (.file error)), files)
  /-- An earlier artifact cannot be dropped, or not all of it. -/
  | stuck {place : Location} {error : FileError} {left : Files}
      (hname : isArtifactName name = true) (hsource : files.isPresent source = true)
      (hlocate : files.locate (Path.join root name) = .ok place)
      (hremove : (Files.remove place).run files = (.error error, left)) :
      Publishing depth root name source files (.error (.store name (.file error)), left)
  | copied {cleared : Files} {outcome : Except FileError Unit × Files}
      (hname : isArtifactName name = true) (hsource : files.isPresent source = true)
      (hclears : Clears files (Path.join root name) cleared)
      (hcourse : PathCopying depth source (Path.join root name) cleared outcome) :
      Publishing depth root name source files
        (outcome.1.mapError fun error => .store name (.file error), outcome.2)

theorem Clears.run_replace {target : String} (hclears : Clears files target cleared) :
    (replace source target).run files = (Files.copy source target).run cleared := by
  rw [replace, FileChange.run_get_bind]
  cases hclears with
  | removed hlocate hremove =>
      rw [hlocate]
      exact FileChange.run_bind_of_ok hremove
  | absent hlocate =>
      rw [hlocate]

/-- A publication comes to what its course says. -/
theorem Publishing.eq_publish {depth : Nat} {outcome : Except ArtifactError Unit × Files}
    (hcourse : Publishing depth root name source files outcome) :
    outcome = publish root name source files := by
  cases hcourse with
  | invalidName hname => simp [publish, hname]
  | noSource hname hsource => simp [publish, hname, hsource]
  | @unreadable error hname hsource hlocate herror =>
      have hreplace : (replace source (Path.join root name)).run files = (.error error, files) := by
        rw [replace, FileChange.run_get_bind, hlocate]
        cases error with
        | notFound => exact absurd rfl herror
        | _ => rfl
      simp [publish, hname, hsource, hreplace, Except.mapError]
  | @stuck place error left hname hsource hlocate hremove =>
      have hreplace : (replace source (Path.join root name)).run files = (.error error, left) := by
        rw [replace, FileChange.run_get_bind, hlocate]
        exact FileChange.run_bind_of_error hremove
      simp [publish, hname, hsource, hreplace, Except.mapError]
  | copied hname hsource hclears hcourse =>
      have hreplace := hclears.run_replace.trans hcourse.run_copy
      simp [publish, hname, hsource, hreplace]

theorem publish_of_course {depth : Nat} {target : String} (hname : isArtifactName name = true)
    (hsource : files.isPresent source = true) (htarget : Path.join root name = target)
    (hclears : Clears files target cleared)
    (hcourse : PathCopying depth source target cleared (.ok (), stored)) :
    publish root name source files = (.ok (), stored) := by
  subst htarget
  exact (Publishing.copied hname hsource hclears hcourse).eq_publish.symm

/-- Every publication has a course, nested no deeper than a path is long. -/
theorem publishing_publish (root name source : String) (files : Files) :
    Publishing (Path.longest + 1) root name source files (publish root name source files) := by
  suffices hexists : ∃ outcome, Publishing (Path.longest + 1) root name source files outcome by
    obtain ⟨outcome, hcourse⟩ := hexists
    rwa [hcourse.eq_publish] at hcourse
  by_cases hname : isArtifactName name = true
  · by_cases hsource : files.isPresent source = true
    · have hcopied : ∀ cleared, Clears files (Path.join root name) cleared →
          ∃ outcome, Publishing (Path.longest + 1) root name source files outcome :=
        fun cleared hclears =>
          ⟨_, .copied hname hsource hclears (Files.pathCopying_run source _ cleared)⟩
      cases hlocate : files.locate (Path.join root name) with
      | ok place =>
          rcases hremove : (Files.remove place).run files with ⟨result, left⟩
          cases result with
          | error error => exact ⟨_, .stuck hname hsource hlocate hremove⟩
          | ok done => exact hcopied left (.removed hlocate hremove)
      | error error =>
          by_cases herror : error = .notFound
          · exact hcopied files (.absent (herror ▸ hlocate))
          · exact ⟨_, .unreadable hname hsource hlocate herror⟩
    · exact ⟨_, .noSource hname (Bool.eq_false_iff.mpr hsource)⟩
  · exact ⟨_, .invalidName (Bool.eq_false_iff.mpr hname)⟩

/-! ## What is stored -/

/-- The tree at one path is now at another one, and only that is there.  Elsewhere nothing changes,
except that directories are made on the way. -/
structure Stored (files stored : Files) (source target : String) : Prop where
  wellFormed : stored.WellFormed
  workingDirectory : stored.workingDirectory = files.workingDirectory
  locate : stored.locate target = .ok (files.goal target)
  item : ∀ rest, stored.item? (files.goal target ++ rest) = files.item? (files.goal source ++ rest)
  others : ∀ place, ¬ files.goal target <+: place → stored.item? place = files.item? place ∨
    files.item? place = none ∧ stored.item? place = some .directory ∧ place ∈ files.way target

/-- A copy to a place where nothing is. -/
theorem stored_of_absent {target : String} (hfiles : files.WellFormed)
    (hclear : files.HasClearWay (files.goal source) target)
    (hapart : Apart (files.goal source) (files.goal target))
    (habsent : files.item? (files.goal target) = none)
    (hcopied : Copied files source target stored) : Stored files stored source target := by
  have hdone := hcopied.copyDone hfiles hclear hapart
  refine ⟨hdone.wellFormed, hdone.workingDirectory, hdone.locate, fun rest => ?_, hdone.others⟩
  rw [hdone.copied rest, hfiles.item?_of_absent habsent (List.prefix_append _ _), Option.or_none]

/-- What was stored is dropped with everything below it. -/
theorem Clears.item? {target : String} {origin : Location} (hclears : Clears files target cleared)
    (hfiles : files.WellFormed) (hclear : files.HasClearWay origin target) :
    cleared.workingDirectory = files.workingDirectory ∧
      ∀ place, cleared.item? place =
        if files.goal target <+: place then none else files.item? place := by
  cases hclears with
  | removed hlocate hremove =>
      obtain ⟨rfl, -⟩ := Files.locate_eq_ok hfiles hlocate
      have hroot : files.goal target ≠ [] := fun hroot =>
        hclear.start.2 (hroot ▸ List.nil_prefix)
      exact Files.remove_eq_ok hroot hremove
  | absent hlocate =>
      obtain ⟨passed, hpassed, hmissing⟩ :=
        Files.exists_missing_of_locate hclear.ne_empty hlocate
      have habsent := hclear.found passed hpassed hmissing
      refine ⟨rfl, fun place => ?_⟩
      split
      · next hextends => exact hfiles.item?_of_absent habsent hextends
      · rfl

/-- A copy into a place that was cleared only ends well beside its source. -/
theorem stored_of_cleared {target : String} (hfiles : files.WellFormed)
    (hclear : files.HasClearWay (files.goal source) target) (hclears : Clears files target cleared)
    (hcopied : Copied cleared source target stored) : Stored files stored source target := by
  obtain ⟨hworking, hcleared⟩ := hclears.item? hfiles hclear
  have hgoal : ∀ path, cleared.goal path = files.goal path := Files.goal_congr hworking
  have hwell : cleared.WellFormed := hfiles.of_remove hcleared
  have habsent : cleared.item? (files.goal target) = none := by
    rw [hcleared, if_pos List.prefix_rfl]
  have hleads : cleared.HasClearWay (files.goal source) target :=
    hclear.congr hworking habsent fun place houtside => by rw [hcleared, if_neg houtside]
  -- A source in the entry is gone, and a source around it cannot be copied into itself.
  have hbeside : ¬ files.goal target <+: files.goal source := by
    intro hextends
    have hpresent := hcopied.isSome_source hwell hleads.start.1
    rw [hgoal, hcleared, if_pos hextends] at hpresent
    cases hpresent
  have hoff := hcopied.not_inside hwell hleads.start.1
  rw [hgoal, hgoal] at hoff
  have hapart : Apart (files.goal source) (files.goal target) :=
    ⟨hoff fun heq => hbeside (heq ▸ List.prefix_rfl), hbeside⟩
  have hstored := stored_of_absent hwell (by rwa [hgoal]) (by rwa [hgoal, hgoal])
    (by rwa [hgoal]) hcopied
  refine ⟨hstored.wellFormed, hstored.workingDirectory.trans hworking, ?_, fun rest => ?_,
    fun place houtside => ?_⟩
  · rw [hstored.locate, hgoal]
  · have hitem := hstored.item rest
    rwa [hgoal, hgoal, hcleared, if_neg (hapart.not_prefix_append rest)] at hitem
  · have hothers := hstored.others place
    rw [hgoal, Files.way_congr hworking, hcleared, if_neg houtside] at hothers
    exact hothers houtside

theorem publish_eq_ok (hpublish : publish root name source files = (.ok (), stored)) :
    files.isPresent source = true ∧ ∃ cleared, Clears files (Path.join root name) cleared ∧
      Copied cleared source (Path.join root name) stored := by
  have hcourse := publishing_publish root name source files
  rw [hpublish] at hcourse
  generalize hresult : ((.ok (), stored) : Except ArtifactError Unit × Files) = result at hcourse
  cases hcourse with
  | invalidName => cases hresult
  | noSource => cases hresult
  | unreadable => cases hresult
  | stuck => cases hresult
  | @copied cleared outcome hname hsource hclears hcourse =>
      obtain ⟨outcome, next⟩ := outcome
      cases outcome with
      | error error => cases hresult
      | ok done =>
          cases hresult
          exact ⟨hsource, cleared, hclears, hcourse.copied rfl⟩

/-! ## Stores with a clear way to their entries -/

/-- The name of an artifact is one step down. -/
theorem isName_of_isArtifactName (hname : isArtifactName name = true) :
    Path.IsName name ∧ '/' ∉ name.toList := by
  simp only [isArtifactName, Bool.and_eq_true, bne_iff_ne, List.all_eq_true] at hname
  obtain ⟨⟨⟨hempty, hdot⟩, hup⟩, hplain⟩ := hname
  refine ⟨⟨?_, hup⟩, fun hslash => (hplain '/' hslash).1 rfl⟩
  rw [Path.isNoStep, Bool.or_eq_false_iff]
  exact ⟨beq_false_of_ne hempty, beq_false_of_ne hdot⟩

/-- A store whose path has no piece that leads upwards has a clear way to each of its entries. -/
theorem hasClearWay_of_root (hfiles : files.WellFormed) (hname : isArtifactName name = true)
    (hdown : ".." ∉ Path.pieces root)
    (hstart : files.item? (files.start (Path.join root name)) = some .directory)
    (origin : Location) : files.HasClearWay origin (Path.join root name) := by
  obtain ⟨hname, hslash⟩ := isName_of_isArtifactName hname
  obtain ⟨front, hpieces, hfront⟩ := Path.exists_pieces_join root hslash
  have hgoal : files.goal (Path.join root name) =
      Path.goal (files.start (Path.join root name)) front ++ [name] := by
    rw [Files.goal, hpieces, Path.goal_concat hname]
  have hup : ".." ∉ front := fun hmem => hdown (hfront _ hmem)
  refine Files.hasClearWay_of_down hfiles ?_ hstart ?_ origin
  · rw [hpieces, List.mem_append, List.mem_singleton]
    rintro (hmem | rfl)
    · exact hup hmem
    · exact hname.2 rfl
  · intro hsame
    have hextends : files.start (Path.join root name) <+:
        Path.goal (files.start (Path.join root name)) front :=
      Path.prefix_goal_of_mem_way hup Path.mem_way_start
    have hlength := hextends.length_le
    have hlonger := congrArg List.length (hgoal.symm.trans hsame)
    rw [List.length_append, List.length_singleton] at hlonger
    omega

/-- The default store is in the working directory. -/
theorem hasClearWay_of_default {workingDirectory : String} (hfiles : files.WellFormed)
    (hname : isArtifactName name = true) (hdown : ".." ∉ Path.pieces workingDirectory)
    (hstart : files.item? (files.start (Path.join (Path.join workingDirectory ".artifacts") name)) =
      some .directory) (origin : Location) :
    files.HasClearWay origin (Path.join (Path.join workingDirectory ".artifacts") name) := by
  obtain ⟨front, hpieces, hfront⟩ :=
    Path.exists_pieces_join workingDirectory (by decide : '/' ∉ ".artifacts".toList)
  refine hasClearWay_of_root hfiles hname ?_ hstart origin
  rw [hpieces, List.mem_append, not_or]
  exact ⟨fun hmem => hdown (hfront _ hmem), by decide⟩

/-! ## The artifact of a publication -/

/-- A working directory with something to publish in it, and more. -/
def workplace (more : List (Location × FileEntry)) : Files where
  entries := [(["work"], .directory), (["work", "dist"], .directory),
    (["work", "dist", "tool"], .file "bin")] ++ more
  workingDirectory := ["work"]

/-- A store in the working directory, with files in one of its entries. -/
def storeWith (store : String) (held : List (String × String)) : List (Location × FileEntry) :=
  (["work", store], .directory) :: (["work", store, "tools"], .directory) ::
    held.map fun file => (["work", store, "tools", file.1], .file file.2)

/-- An entry of the store holds what an earlier run has published. -/
def staleWorkplace (store : String) (more : List (Location × FileEntry)) : Files :=
  workplace (storeWith store [("stale", "old")] ++ more)

/-- What a publication on a way that is not clear adds. -/
def mixedIn : List (Location × FileEntry) :=
  [(["work", "tmp"], .directory), (["work", "store", "tools", "tool"], .file "bin")]

/-- The default store drops what an earlier run has left in it. -/
theorem publish_into_default_store :
    publish (Path.join "/work" ".artifacts") "tools" "/work/dist" (staleWorkplace ".artifacts" []) =
      (.ok (), workplace (storeWith ".artifacts" [("tool", "bin")])) := by
  have hclears : Clears (staleWorkplace ".artifacts" []) "/work/.artifacts/tools"
      (workplace [(["work", ".artifacts"], .directory)]) :=
    .removed rfl rfl
  have hpieces : Path.pieces "/work/.artifacts/tools" = ["", "work", ".artifacts", "tools"] := by
    decide
  have hmake : (Files.makeAll "/work/.artifacts/tools").run
      (workplace [(["work", ".artifacts"], .directory)]) =
        (.ok ["work", ".artifacts", "tools"], workplace (storeWith ".artifacts" [])) := by
    rw [Files.run_makeAll (by decide), hpieces]
    rfl
  have htool : Copying 0 ["work", "dist", "tool"] ["work", ".artifacts", "tools", "tool"] none
      (workplace (storeWith ".artifacts" []))
      (.ok (), workplace (storeWith ".artifacts" [("tool", "bin")])) :=
    Files.copying_of_file (by decide) rfl rfl rfl (by decide) (by decide)
  have hdist : Copying 1 ["work", "dist"] ["work", ".artifacts", "tools"] none
      (workplace (storeWith ".artifacts" []))
      (.ok (), workplace (storeWith ".artifacts" [("tool", "bin")])) :=
    .directory (by decide) rfl rfl rfl (.child htool .done)
  exact publish_of_course (by decide) (by decide) (by decide) hclears
    (.directory (by decide) hmake rfl hdist)

/-- On a path over a directory that is missing the earlier artifact is not found, and then the copy
makes the directory and gets to the entry. -/
theorem publish_past_stale_entry :
    publish "tmp/../store" "tools" "dist" (staleWorkplace "store" []) =
      (.ok (), staleWorkplace "store" mixedIn) := by
  have hclears : Clears (staleWorkplace "store" []) "tmp/../store/tools"
      (staleWorkplace "store" []) :=
    .absent rfl
  have hpieces : Path.pieces "tmp/../store/tools" = ["tmp", "..", "store", "tools"] := by decide
  have hmake : (Files.makeAll "tmp/../store/tools").run (staleWorkplace "store" []) =
      (.ok ["work", "store", "tools"],
        staleWorkplace "store" [(["work", "tmp"], .directory)]) := by
    rw [Files.run_makeAll (by decide), hpieces]
    rfl
  have htool : Copying 0 ["work", "dist", "tool"] ["work", "store", "tools", "tool"] none
      (staleWorkplace "store" [(["work", "tmp"], .directory)])
      (.ok (), staleWorkplace "store" mixedIn) :=
    Files.copying_of_file (by decide) rfl rfl rfl (by decide) (by decide)
  have hdist : Copying 1 ["work", "dist"] ["work", "store", "tools"] none
      (staleWorkplace "store" [(["work", "tmp"], .directory)])
      (.ok (), staleWorkplace "store" mixedIn) :=
    .directory (by decide) rfl rfl rfl (.child htool .done)
  exact publish_of_course (by decide) (by decide) (by decide) hclears
    (.directory (by decide) hmake rfl hdist)

/-- A publication comes to an end, and to one only.  Calls are nested no deeper than a path is long,
also where the store is in what is published.  After a publication that succeeds the path of the
artifact, if the way to it was clear, leads to the very tree that the source was. -/
theorem publication_ends_with_source_tree (root name source : String) (hfiles : files.WellFormed) :
    Publishing (Path.longest + 1) root name source files (publish root name source files) ∧
      (∀ depth outcome, Publishing depth root name source files outcome →
        outcome = publish root name source files) ∧
      ∀ stored, publish root name source files = (.ok (), stored) →
        files.HasClearWay (files.goal source) (Path.join root name) → ∃ origin place,
          files.locate source = .ok origin ∧ stored.locate (Path.join root name) = .ok place ∧
            ∀ rest, stored.item? (place ++ rest) = files.item? (origin ++ rest) := by
  refine ⟨publishing_publish root name source files, fun _ _ hcourse => hcourse.eq_publish,
    fun stored hpublish hclear => ?_⟩
  obtain ⟨hsource, cleared, hclears, hcopied⟩ := publish_eq_ok hpublish
  have hstored := stored_of_cleared hfiles hclear hclears hcopied
  exact ⟨_, _, Files.locate_of_isPresent hfiles hsource, hstored.locate, hstored.item⟩

/-- The default store takes the place of what an earlier run left in it. -/
theorem publication_ends_with_source_tree_workplace :
    (staleWorkplace ".artifacts" []).WellFormed ∧
      ∃ stored origin place,
        publish (Path.join "/work" ".artifacts") "tools" "/work/dist"
          (staleWorkplace ".artifacts" []) = (.ok (), stored) ∧
        (staleWorkplace ".artifacts" []).locate "/work/dist" = .ok origin ∧
        stored.locate (Path.join (Path.join "/work" ".artifacts") "tools") = .ok place ∧
        ∀ rest, stored.item? (place ++ rest) =
          (staleWorkplace ".artifacts" []).item? (origin ++ rest) := by
  have hfiles : (staleWorkplace ".artifacts" []).WellFormed :=
    Files.wellFormed_of_entries (by decide)
  have hclear := hasClearWay_of_default hfiles (by decide : isArtifactName "tools" = true)
    (by decide : ".." ∉ Path.pieces "/work") (by decide)
  obtain ⟨-, -, hstored⟩ := publication_ends_with_source_tree (Path.join "/work" ".artifacts")
    "tools" "/work/dist" hfiles
  obtain ⟨origin, place, hsource⟩ := hstored _ publish_into_default_store (hclear _)
  exact ⟨hfiles, _, origin, place, publish_into_default_store, hsource⟩

/-- On a way that is not clear an earlier artifact stays, between the files of the new one. -/
theorem stale_entry_outlives_publication :
    ¬ ∀ (root name source : String) (files stored : Files), files.WellFormed →
      publish root name source files = (.ok (), stored) → ∃ origin place,
        files.locate source = .ok origin ∧ stored.locate (Path.join root name) = .ok place ∧
          ∀ rest, stored.item? (place ++ rest) = files.item? (origin ++ rest) := by
  intro hclaim
  obtain ⟨origin, place, horigin, hplace, hitem⟩ := hclaim _ _ _ _ _
    (Files.wellFormed_of_entries (by decide)) publish_past_stale_entry
  have hdist : (staleWorkplace "store" []).locate "dist" = .ok ["work", "dist"] := rfl
  have htools : (staleWorkplace "store" mixedIn).locate "tmp/../store/tools" =
      .ok ["work", "store", "tools"] := rfl
  have hpath : Path.join "tmp/../store" "tools" = "tmp/../store/tools" := by decide
  rw [hdist] at horigin
  rw [hpath, htools] at hplace
  cases horigin
  cases hplace
  cases hitem ["stale"]

end BuildPipeline.DirectoryStore
