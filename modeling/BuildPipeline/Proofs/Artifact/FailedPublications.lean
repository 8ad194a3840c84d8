import BuildPipeline.Proofs.Artifact.DirectoryStore
import BuildPipeline.Proofs.Files.FailedCopies

/-!
# Publications that fail

A publication is refused before it touches anything, or it drops what the entry held and copies the
source there.  Both can fail on the way: the system can refuse to remove something, to make a
directory, to list one, or to read or write a file.  Nothing is taken back then, and what was
dropped is not kept anywhere.

* `Refuses` are the errors of a publication that changes nothing.
* `Files.RemovedInPart` is what is left where the entry could not be dropped: some of what it held.
* `CutShort` is what a publication leaves whose copy failed: nothing of an earlier artifact, but
  files out of the source, one of which may be cut short, and everything outside of the entry.
* `failed_publication_loses_only_its_entry` says that there is nothing else.
* `artifact_is_lost_with_its_source` is a publication of an entry as itself, which loses it.
-/

namespace BuildPipeline.DirectoryStore

open Files (Apart CutAt PathCopying RemovedInPart)

variable {root name source : String} {files next cleared : Files} {error : ArtifactError}

/-- Why a publication leaves everything as it is. -/
inductive Refuses (root name source : String) (files : Files) : ArtifactError → Prop
  | invalidName (hname : isArtifactName name = false) :
      Refuses root name source files (.invalidName name)
  | noSource (hsource : files.isPresent source = false) :
      Refuses root name source files (.store name (.noSource source))
  /-- It cannot be told whether there is an earlier artifact. -/
  | unreadable {fault : FileError} (hlocate : files.locate (Path.join root name) = .error fault)
      (hfault : fault ≠ .notFound) : Refuses root name source files (.store name (.file fault))

/-- The files that can get into an entry: those that the source holds outside of the entry, and from
a source beside it only in their place. -/
def Survives (files : Files) (source target : Location) (rest : Location) (whole : String) : Prop :=
  ∃ below, ¬ target <+: source ++ below ∧ files.item? (source ++ below) = some (.file whole) ∧
    (Apart source target → below = rest)

/-- What is left where an entry was dropped and the copy of the source failed. -/
structure CutShort (files next : Files) (source target : String) : Prop where
  others : ∀ place, ¬ files.goal target <+: place → next.item? place = files.item? place ∨
    files.item? place = none ∧ next.item? place = some .directory ∧ place ∈ files.way target
  /-- The files in the entry come out of the source, and not out of what the entry held.  At most
  one of them is not complete. -/
  texts : ∃ cut, ∀ rest text, next.item? (files.goal target ++ rest) = some (.file text) →
    CutAt (Survives files (files.goal source) (files.goal target)) cut rest text
  /-- A source in the entry was dropped with it. -/
  gone : files.goal target <+: files.goal source → ∀ rest text,
    next.item? (files.goal target ++ rest) ≠ some (.file text)

/-- An entry is not the root. -/
theorem goal_join_ne_nil (hname : isArtifactName name = true) :
    files.goal (Path.join root name) ≠ [] := by
  obtain ⟨hname, hslash⟩ := isName_of_isArtifactName hname
  obtain ⟨front, hpieces, -⟩ := Path.exists_pieces_join root hslash
  rw [Files.goal, hpieces, Path.goal_concat hname]
  exact List.append_ne_nil_of_right_ne_nil _ (List.cons_ne_nil _ _)

/-- The copy into an entry that was dropped finds nothing of it in the source. -/
theorem Clears.cutShort {depth : Nat} {fault : FileError} (hfiles : files.WellFormed)
    (hname : isArtifactName name = true)
    (hclear : files.HasClearWay (files.goal source) (Path.join root name))
    (hclears : Clears files (Path.join root name) cleared)
    (hcourse : PathCopying depth source (Path.join root name) cleared (.error fault, next)) :
    CutShort files next source (Path.join root name) := by
  obtain ⟨hname, hslash⟩ := isName_of_isArtifactName hname
  obtain ⟨front, hpieces, -⟩ := Path.exists_pieces_join root hslash
  obtain ⟨hworking, hcleared⟩ := hclears.item? hfiles hclear
  have hgoal : ∀ path, cleared.goal path = files.goal path := Files.goal_congr hworking
  have hwell : cleared.WellFormed := hfiles.of_remove hcleared
  have habsent : cleared.item? (files.goal (Path.join root name)) = none := by
    rw [hcleared, if_pos List.prefix_rfl]
  have hleads : cleared.HasClearWay (files.goal source) (Path.join root name) :=
    hclear.congr hworking habsent fun place houtside => by rw [hcleared, if_neg houtside]
  obtain ⟨hothers, cut, htexts⟩ :=
    hcourse.leaves hwell (by rwa [hgoal]) (by rwa [hgoal]) hpieces hname
  -- What is still there after the entry was dropped was there before, outside of it.
  have hsurvives : ∀ rest whole,
      cleared.FromSource (files.goal source) (files.goal (Path.join root name)) rest whole →
        Survives files (files.goal source) (files.goal (Path.join root name)) rest whole := by
    rintro rest whole ⟨below, hitem, hplace⟩
    rw [hcleared] at hitem
    split at hitem
    · cases hitem
    · next houtside => exact ⟨below, houtside, hitem, hplace⟩
  rw [hgoal, hgoal] at htexts
  have hfound : ∀ rest text,
      next.item? (files.goal (Path.join root name) ++ rest) = some (.file text) →
        CutAt (Survives files (files.goal source) (files.goal (Path.join root name))) cut rest
          text :=
    fun rest text hfile => (htexts rest text hfile).mono hsurvives
  refine ⟨fun place houtside => ?_, ⟨cut, hfound⟩, fun hinside rest text hfile => ?_⟩
  · have hother := hothers place (by rwa [hgoal])
    rwa [Files.way_congr hworking, hcleared, if_neg houtside] at hother
  · rcases hfound rest text hfile with ⟨below, houtside, -⟩ | ⟨-, _, ⟨below, houtside, -⟩, -⟩ <;>
      exact houtside (hinside.trans (List.prefix_append _ _))

/-! ## An entry as its own source -/

/-- The entry is dropped, and with it what was to be published. -/
theorem publish_own_entry :
    publish "store" "tools" "store/tools" (staleWorkplace "store" []) =
      (.error (.store "tools" (.file .notFound)), workplace [(["work", "store"], .directory)]) := by
  have hclears : Clears (staleWorkplace "store" []) "store/tools"
      (workplace [(["work", "store"], .directory)]) :=
    .removed rfl rfl
  have hpieces : Path.pieces "store" = ["store"] := by decide
  have hmake : (Files.makeAll "store").run (workplace [(["work", "store"], .directory)]) =
      (.ok ["work", "store"], workplace [(["work", "store"], .directory)]) := by
    rw [Files.run_makeAll (by decide), hpieces]
    rfl
  have hcopy : (Files.copyFile "store/tools" "store/tools").run
      (workplace [(["work", "store"], .directory)]) =
        (.error .notFound, workplace [(["work", "store"], .directory)]) := by
    have hparent : Path.parent? "store/tools" = some "store" := by decide
    rw [Files.copyFile, hparent]
    exact FileChange.run_bind_of_ok hmake
  have hcourse : PathCopying 0 "store/tools" "store/tools"
      (workplace [(["work", "store"], .directory)])
      (.error .notFound, workplace [(["work", "store"], .directory)]) :=
    hcopy ▸ .file rfl
  have hentry : Path.join "store" "tools" = "store/tools" := by decide
  exact (Publishing.copied (by decide) (by decide) (hentry ▸ hclears)
    (hentry ▸ hcourse)).eq_publish.symm

/-- A publication that fails has changed nothing, or it has lost what the entry held.  It is refused
for an invalid name, for a source that is not there and where the entry cannot be looked up, and
then what an earlier publication has stored is there as before.  Where the entry cannot be dropped,
no copy begins: the entry is there with a part of what was in it, and nothing else changes.  After a
copy that failed nothing of the earlier artifact is left: on a clear way the files in the entry come
out of the source and from outside of the entry, complete but for one at the most.  From a source
beside the entry they are in their places, and there are none if the source was in the entry.
Nothing else changes then, except that directories are made on the way. -/
theorem failed_publication_loses_only_its_entry (hfiles : files.WellFormed)
    (hpublish : publish root name source files = (.error error, next)) :
    Refuses root name source files error ∧ next = files ∨
      ∃ fault, error = .store name (.file fault) ∧ files.isPresent source = true ∧
        (files.locate (Path.join root name) = .ok (files.goal (Path.join root name)) ∧
            (Files.remove (files.goal (Path.join root name))).run files = (.error fault, next) ∧
            RemovedInPart files next (files.goal (Path.join root name)) ∨
          ∃ cleared, Clears files (Path.join root name) cleared ∧
            (Files.copy source (Path.join root name)).run cleared = (.error fault, next) ∧
            (files.HasClearWay (files.goal source) (Path.join root name) →
              CutShort files next source (Path.join root name))) := by
  have hcourse := publishing_publish root name source files
  rw [hpublish] at hcourse
  generalize hresult : ((.error error, next) : Except ArtifactError Unit × Files) = result
    at hcourse
  cases hcourse with
  | invalidName hname =>
      cases hresult
      exact .inl ⟨.invalidName hname, rfl⟩
  | noSource hname hsource =>
      cases hresult
      exact .inl ⟨.noSource hsource, rfl⟩
  | unreadable hname hsource hlocate hfault =>
      cases hresult
      exact .inl ⟨.unreadable hlocate hfault, rfl⟩
  | stuck hname hsource hlocate hremove =>
      cases hresult
      obtain ⟨rfl, -⟩ := Files.locate_eq_ok hfiles hlocate
      exact .inr ⟨_, rfl, hsource, .inl ⟨hlocate, hremove,
        Files.removedInPart_of_remove hfiles (goal_join_ne_nil hname) hremove⟩⟩
  | @copied cleared outcome hname hsource hclears hcourse =>
      obtain ⟨outcome, stored⟩ := outcome
      cases outcome with
      | ok done => cases hresult
      | error fault =>
          cases hresult
          exact .inr ⟨fault, rfl, hsource, .inr ⟨cleared, hclears, hcourse.run_copy,
            fun hclear => hclears.cutShort hfiles hname hclear hcourse⟩⟩

/-- Of an entry that is published as itself no file is left. -/
theorem failed_publication_loses_only_its_entry_tools :
    (staleWorkplace "store" []).WellFormed ∧
      ∃ error next,
        publish "store" "tools" "store/tools" (staleWorkplace "store" []) = (.error error, next) ∧
        (staleWorkplace "store" []).item? ["work", "store", "tools", "stale"] =
          some (.file "old") ∧
        ∀ rest text, next.item? (["work", "store", "tools"] ++ rest) ≠ some (.file text) := by
  have hfiles : (staleWorkplace "store" []).WellFormed :=
    Files.wellFormed_of_entries (by decide)
  have hclear := hasClearWay_of_root hfiles (by decide : isArtifactName "tools" = true)
    (by decide : ".." ∉ Path.pieces "store") (by decide)
  have hgoal : (staleWorkplace "store" []).goal (Path.join "store" "tools") =
      (staleWorkplace "store" []).goal "store/tools" := by
    decide
  refine ⟨hfiles, _, _, publish_own_entry, by decide, ?_⟩
  rcases failed_publication_loses_only_its_entry hfiles publish_own_entry with
    ⟨hrefuses, -⟩ | ⟨_, -, -, ⟨-, hremove, -⟩ | ⟨_, -, -, hcut⟩⟩
  · cases hrefuses with
    | unreadable _ hfault => exact absurd rfl hfault
  · cases congrArg Prod.fst hremove
  · exact (hcut (hclear _)).gone (hgoal ▸ List.prefix_rfl)

/-- An artifact that was stored is not there any more after a publication that failed. -/
theorem artifact_is_lost_with_its_source :
    ¬ ∀ (root name source : String) (files next : Files) (error : ArtifactError),
      files.WellFormed → publish root name source files = (.error error, next) → ∀ rest,
        next.item? (files.goal (Path.join root name) ++ rest) =
          files.item? (files.goal (Path.join root name) ++ rest) := by
  intro hclaim
  have hstale := hclaim _ _ _ _ _ _ (Files.wellFormed_of_entries (by decide)) publish_own_entry
    ["stale"]
  have hgoal : (staleWorkplace "store" []).goal (Path.join "store" "tools") =
      ["work", "store", "tools"] := by
    decide
  rw [hgoal] at hstale
  cases hstale

end BuildPipeline.DirectoryStore
