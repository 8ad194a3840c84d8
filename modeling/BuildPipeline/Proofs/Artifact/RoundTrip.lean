import BuildPipeline.Proofs.Artifact.DirectoryStore

/-!
# Downloads of what was published

A download copies an entry of the store over what is at its target.  Where nothing is there, the
target is afterwards the tree that was published, because the entry was: `stored_of_absent` is about
both copies, and of a publication that has cleared its entry it is only one part.

What is outside of the entry and the target stays as it was, up to directories that are missing on
the way to them.
-/

namespace BuildPipeline.DirectoryStore

open Files (Apart Copied Copying PathCopying)

variable {root name source target : String} {files stored fetched : Files}

theorem download_of_course {depth : Nat} {entry : String} (hname : isArtifactName name = true)
    (hentry : Path.join root name = entry)
    (hcourse : PathCopying depth entry target files (.ok (), fetched)) :
    download root name target files = (.ok (), fetched) := by
  subst hentry
  simp [download, hname, hcourse.run_copy, Except.mapError]

theorem download_eq_ok (hdownload : download root name target files = (.ok (), fetched)) :
    Copied files (Path.join root name) target fetched := by
  unfold download at hdownload
  split at hdownload
  · cases hdownload
  · rcases hrun : (Files.copy (Path.join root name) target).run files with ⟨outcome, next⟩
    rw [hrun] at hdownload
    cases outcome with
    | error error => cases hdownload
    | ok done =>
        cases hdownload
        have hcourse := Files.pathCopying_run (Path.join root name) target files
        rw [hrun] at hcourse
        exact hcourse.copied rfl

/-- With a valid name and a source that is there only the file system can fail. -/
theorem publish_ok_of_no_fault {published : Except ArtifactError Unit}
    (hname : isArtifactName name = true) (hsource : files.isPresent source = true)
    (hpublish : publish root name source files = (published, stored))
    (hfault : ∀ error, published ≠ .error (.store name (.file error))) : published = .ok () := by
  simp only [publish, hname, hsource] at hpublish
  rcases hrun : (replace source (Path.join root name)).run files with ⟨outcome, next⟩
  simp only [hrun] at hpublish
  cases outcome with
  | error error =>
      cases hpublish
      exact absurd rfl (hfault error)
  | ok done =>
      cases hpublish
      rfl

theorem download_ok_of_no_fault {fetching : Except ArtifactError Unit}
    (hname : isArtifactName name = true)
    (hdownload : download root name target files = (fetching, fetched))
    (hfault : ∀ error, fetching ≠ .error (.store name (.file error))) : fetching = .ok () := by
  simp only [download, hname] at hdownload
  rcases hrun : (Files.copy (Path.join root name) target).run files with ⟨outcome, next⟩
  simp only [hrun] at hdownload
  cases outcome with
  | error error =>
      cases hdownload
      exact absurd rfl (hfault error)
  | ok done =>
      cases hdownload
      rfl

/-! ## Publications and downloads -/

/-- The artifact comes out of the default store. -/
theorem download_from_default_store :
    download (Path.join "/work" ".artifacts") "tools" "/work/out"
      (workplace (storeWith ".artifacts" [("tool", "bin")])) =
        (.ok (), workplace (storeWith ".artifacts" [("tool", "bin")] ++
          [(["work", "out"], .directory), (["work", "out", "tool"], .file "bin")])) := by
  have hpieces : Path.pieces "/work/out" = ["", "work", "out"] := by decide
  have hmake : (Files.makeAll "/work/out").run
      (workplace (storeWith ".artifacts" [("tool", "bin")])) = (.ok ["work", "out"],
        workplace (storeWith ".artifacts" [("tool", "bin")] ++
          [(["work", "out"], .directory)])) := by
    rw [Files.run_makeAll (by decide), hpieces]
    rfl
  have htool : Copying 0 ["work", ".artifacts", "tools", "tool"] ["work", "out", "tool"] none
      (workplace (storeWith ".artifacts" [("tool", "bin")] ++ [(["work", "out"], .directory)]))
      (.ok (), workplace (storeWith ".artifacts" [("tool", "bin")] ++
        [(["work", "out"], .directory), (["work", "out", "tool"], .file "bin")])) :=
    Files.copying_of_file (by decide) rfl rfl rfl (by decide) (by decide)
  have htools : Copying 1 ["work", ".artifacts", "tools"] ["work", "out"] none
      (workplace (storeWith ".artifacts" [("tool", "bin")] ++ [(["work", "out"], .directory)]))
      (.ok (), workplace (storeWith ".artifacts" [("tool", "bin")] ++
        [(["work", "out"], .directory), (["work", "out", "tool"], .file "bin")])) :=
    .directory (by decide) rfl rfl rfl (.child htool .done)
  have hentry : Path.join (Path.join "/work" ".artifacts") "tools" = "/work/.artifacts/tools" := by
    decide
  exact download_of_course (by decide) hentry (.directory (by decide) hmake rfl htools)

/-- What stayed in an entry is downloaded with the rest. -/
theorem download_with_stale_entry :
    download "tmp/../store" "tools" "out" (staleWorkplace "store" mixedIn) =
      (.ok (), staleWorkplace "store" (mixedIn ++ [(["work", "out"], .directory),
        (["work", "out", "stale"], .file "old"), (["work", "out", "tool"], .file "bin")])) := by
  have hpieces : Path.pieces "out" = ["out"] := by decide
  have hmake : (Files.makeAll "out").run (staleWorkplace "store" mixedIn) =
      (.ok ["work", "out"],
        staleWorkplace "store" (mixedIn ++ [(["work", "out"], .directory)])) := by
    rw [Files.run_makeAll (by decide), hpieces]
    rfl
  have hstale : Copying 0 ["work", "store", "tools", "stale"] ["work", "out", "stale"] none
      (staleWorkplace "store" (mixedIn ++ [(["work", "out"], .directory)]))
      (.ok (), staleWorkplace "store" (mixedIn ++ [(["work", "out"], .directory),
        (["work", "out", "stale"], .file "old")])) :=
    Files.copying_of_file (by decide) rfl rfl rfl (by decide) (by decide)
  have htool : Copying 0 ["work", "store", "tools", "tool"] ["work", "out", "tool"] none
      (staleWorkplace "store" (mixedIn ++ [(["work", "out"], .directory),
        (["work", "out", "stale"], .file "old")]))
      (.ok (), staleWorkplace "store" (mixedIn ++ [(["work", "out"], .directory),
        (["work", "out", "stale"], .file "old"), (["work", "out", "tool"], .file "bin")])) :=
    Files.copying_of_file (by decide) rfl rfl rfl (by decide) (by decide)
  have htools : Copying 1 ["work", "store", "tools"] ["work", "out"] none
      (staleWorkplace "store" (mixedIn ++ [(["work", "out"], .directory)]))
      (.ok (), staleWorkplace "store" (mixedIn ++ [(["work", "out"], .directory),
        (["work", "out", "stale"], .file "old"), (["work", "out", "tool"], .file "bin")])) :=
    .directory (by decide) rfl rfl rfl (.child hstale (.child htool .done))
  have hentry : Path.join "tmp/../store" "tools" = "tmp/../store/tools" := by decide
  exact download_of_course (by decide) hentry (.directory (by decide) hmake rfl htools)

/-- A download gets back what was published.  Without errors of the file system, and on clear ways,
the artifact is downloaded to a place where nothing is, beside its entry in the store, and then the
tree there is the one that the source was, whatever the entry held before.  Nothing else changes,
except that missing directories are made on the way to the entry and to the target. -/
theorem download_returns_published_tree {published fetching : Except ArtifactError Unit}
    (hfiles : files.WellFormed) (hname : isArtifactName name = true)
    (hsource : files.isPresent source = true)
    (hentry : files.HasClearWay (files.goal source) (Path.join root name))
    (hpublish : publish root name source files = (published, stored))
    (hstored : ∀ error, published ≠ .error (.store name (.file error)))
    (hapart : Apart (files.goal (Path.join root name)) (files.goal target))
    (htarget : stored.HasClearWay (files.goal (Path.join root name)) target)
    (habsent : stored.item? (files.goal target) = none)
    (hdownload : download root name target stored = (fetching, fetched))
    (hfetched : ∀ error, fetching ≠ .error (.store name (.file error))) :
    published = .ok () ∧ fetching = .ok () ∧
      (∃ origin place, files.locate source = .ok origin ∧ fetched.locate target = .ok place ∧
        ∀ rest, fetched.item? (place ++ rest) = files.item? (origin ++ rest)) ∧
      ∀ place, ¬ files.goal (Path.join root name) <+: place → ¬ files.goal target <+: place →
        fetched.item? place = files.item? place ∨
          files.item? place = none ∧ fetched.item? place = some .directory ∧
            (place ∈ files.way (Path.join root name) ∨ place ∈ files.way target) := by
  obtain rfl := publish_ok_of_no_fault hname hsource hpublish hstored
  obtain rfl := download_ok_of_no_fault hname hdownload hfetched
  obtain ⟨-, cleared, hclears, hcopied⟩ := publish_eq_ok hpublish
  have hkept := stored_of_cleared hfiles hentry hclears hcopied
  have hgoal : ∀ path, stored.goal path = files.goal path :=
    Files.goal_congr hkept.workingDirectory
  have hgot : Stored stored fetched (Path.join root name) target :=
    stored_of_absent hkept.wellFormed (by rwa [hgoal]) (by rwa [hgoal, hgoal]) (by rwa [hgoal])
      (download_eq_ok hdownload)
  refine ⟨rfl, rfl, ⟨_, _, Files.locate_of_isPresent hfiles hsource, hgot.locate, fun rest => ?_⟩,
    fun place houtside hbeside => ?_⟩
  · rw [hgot.item, hgoal, hkept.item]
  · -- What the publication has made is a directory, so the download leaves it alone.
    have hsecond := hgot.others place (by rwa [hgoal])
    rw [Files.way_congr hkept.workingDirectory] at hsecond
    rcases hkept.others place houtside with hsame | ⟨hmissing, hmade, habove⟩
    · rw [hsame] at hsecond
      exact hsecond.imp_right fun ⟨hmissing, hmade, habove⟩ => ⟨hmissing, hmade, .inr habove⟩
    · rcases hsecond with hsame | ⟨habsent, -⟩
      · exact .inr ⟨hmissing, hsame.trans hmade, .inl habove⟩
      · cases habsent.symm.trans hmade

/-- Through the default store, where an earlier run has left something. -/
theorem download_returns_published_tree_workplace :
    ∃ stored fetched origin place,
      publish (Path.join "/work" ".artifacts") "tools" "/work/dist"
        (staleWorkplace ".artifacts" []) = (.ok (), stored) ∧
      download (Path.join "/work" ".artifacts") "tools" "/work/out" stored = (.ok (), fetched) ∧
      (staleWorkplace ".artifacts" []).locate "/work/dist" = .ok origin ∧
      fetched.locate "/work/out" = .ok place ∧
      ∀ rest, fetched.item? (place ++ rest) =
        (staleWorkplace ".artifacts" []).item? (origin ++ rest) := by
  have hfiles : (staleWorkplace ".artifacts" []).WellFormed :=
    Files.wellFormed_of_entries (by decide)
  have hstored : (workplace (storeWith ".artifacts" [("tool", "bin")])).WellFormed :=
    Files.wellFormed_of_entries (by decide)
  have hentry := hasClearWay_of_default hfiles (by decide : isArtifactName "tools" = true)
    (by decide : ".." ∉ Path.pieces "/work") (by decide)
  have htarget := Files.hasClearWay_of_down hstored (by decide : ".." ∉ Path.pieces "/work/out")
    (by decide) (by decide)
  obtain ⟨-, -, ⟨origin, place, horigin, hplace, hitem⟩, -⟩ := download_returns_published_tree
    hfiles (by decide) (by decide) (hentry _) publish_into_default_store
    (fun _ heq => nomatch heq) ⟨by decide, by decide⟩ (htarget _) (by decide)
    download_from_default_store (fun _ heq => nomatch heq)
  exact ⟨_, _, origin, place, publish_into_default_store, download_from_default_store, horigin,
    hplace, hitem⟩

/-- Where the way to the entry was not clear, the download brings an earlier artifact along. -/
theorem stale_entry_is_downloaded :
    ¬ ∀ (root name source target : String) (files stored fetched : Files), files.WellFormed →
      isArtifactName name = true → Apart (files.goal source) (files.goal (Path.join root name)) →
      Apart (files.goal source) (files.goal target) →
      Apart (files.goal (Path.join root name)) (files.goal target) →
      publish root name source files = (.ok (), stored) →
      stored.item? (files.goal target) = none →
      download root name target stored = (.ok (), fetched) → ∃ origin place,
        files.locate source = .ok origin ∧ fetched.locate target = .ok place ∧
          ∀ rest, fetched.item? (place ++ rest) = files.item? (origin ++ rest) := by
  intro hclaim
  obtain ⟨origin, place, horigin, hplace, hitem⟩ := hclaim _ _ _ _ _ _ _
    (Files.wellFormed_of_entries (by decide)) (by decide) ⟨by decide, by decide⟩
    ⟨by decide, by decide⟩ ⟨by decide, by decide⟩ publish_past_stale_entry (by decide)
    download_with_stale_entry
  have hdist : (staleWorkplace "store" []).locate "dist" = .ok ["work", "dist"] := rfl
  have hout : (staleWorkplace "store" (mixedIn ++ [(["work", "out"], .directory),
      (["work", "out", "stale"], .file "old"), (["work", "out", "tool"], .file "bin")])).locate
        "out" = .ok ["work", "out"] := rfl
  rw [hdist] at horigin
  rw [hout] at hplace
  cases horigin
  cases hplace
  cases hitem ["stale"]

end BuildPipeline.DirectoryStore
