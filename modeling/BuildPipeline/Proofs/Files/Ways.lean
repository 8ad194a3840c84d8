import BuildPipeline.Proofs.Files.PathTexts
import BuildPipeline.Proofs.Files.Trees

/-!
# The ways of paths

A path is followed piece by piece, over directories that have to be there.  `Path.goal` is where its
text leads, whatever is there, and `Path.way` lists the locations in between.

* `walk_eq_ok`: what is followed without an error leads to the goal, over things that are there.
* `makeFrom_eq_ok`: making directories makes those on the way, and changes nothing else
  (`MakesDirectories`).
* `HasClearWay`: directories can be made for a path that leads upwards out of something that is
  missing, and then it leads where it could not be followed before.  What was at its goal has been
  overlooked then, and what is made can be in the goal or in something else.  A clear way excludes
  that.
-/

namespace BuildPipeline

namespace Path

/-! ## Ways -/

/-- Where a piece leads, if only the text counts. -/
def step (location : Location) (piece : String) : Location :=
  if isNoStep piece then location
  else if piece = ".." then location.dropLast
  else location ++ [piece]

/-- Where pieces lead from a location, if only the text counts. -/
def goal (location : Location) (pieces : List String) : Location :=
  pieces.foldl step location

/-- The locations that are passed on the way, with both ends. -/
def way (location : Location) : List String → List Location
  | [] => [location]
  | piece :: rest => location :: way (step location piece) rest

variable {location place : Location} {piece name : String} {front pieces : List String}

theorem step_of_isNoStep (hpiece : isNoStep piece = true) : step location piece = location :=
  if_pos hpiece

theorem step_up : step location ".." = location.dropLast := by
  rw [step, if_neg (by decide), if_pos rfl]

theorem IsName.step (hname : IsName name) : Path.step location name = location ++ [name] := by
  rw [Path.step, if_neg (by rw [hname.1]; exact Bool.false_ne_true), if_neg hname.2]

/-- A piece leads nowhere, upwards, or into a directory. -/
theorem piece_cases (piece : String) : isNoStep piece = true ∨ piece = ".." ∨ IsName piece := by
  by_cases hstay : isNoStep piece = true
  · exact .inl hstay
  · by_cases hup : piece = ".."
    · exact .inr (.inl hup)
    · exact .inr (.inr ⟨Bool.eq_false_iff.mpr hstay, hup⟩)

theorem mem_way_start : location ∈ way location pieces := by
  cases pieces <;> exact List.mem_cons_self

theorem goal_mem_way : goal location pieces ∈ way location pieces := by
  induction pieces generalizing location with
  | nil => exact List.mem_cons_self
  | cons piece rest ih => exact List.mem_cons_of_mem location ih

theorem goal_append (front back : List String) :
    goal location (front ++ back) = goal (goal location front) back :=
  List.foldl_append

theorem goal_concat (hname : IsName name) :
    goal location (front ++ [name]) = goal location front ++ [name] := by
  rw [goal_append]
  exact hname.step

theorem mem_way_append {back : List String} :
    place ∈ way location (front ++ back) ↔
      place ∈ way location front ∨ place ∈ way (goal location front) back := by
  induction front generalizing location with
  | nil =>
      constructor
      · exact .inr
      · rintro (hstart | hway)
        · rw [List.mem_singleton.mp hstart]
          exact mem_way_start
        · exact hway
  | cons piece front ih =>
      change place ∈ location :: way (step location piece) (front ++ back) ↔
        place ∈ location :: way (step location piece) front ∨ _
      rw [List.mem_cons, List.mem_cons, ih, or_assoc]
      rfl

/-- Names lead straight down. -/
theorem mem_way_of_names (hnames : ∀ name ∈ pieces, IsName name) :
    place ∈ way location pieces ↔ location <+: place ∧ place <+: location ++ pieces := by
  induction pieces generalizing location with
  | nil =>
      rw [way, List.mem_singleton, List.append_nil]
      constructor
      · rintro rfl
        exact ⟨List.prefix_rfl, List.prefix_rfl⟩
      · rintro ⟨hbelow, habove⟩
        exact habove.eq_of_length (Nat.le_antisymm habove.length_le hbelow.length_le)
  | cons name rest ih =>
      obtain ⟨hname, hrest⟩ := List.forall_mem_cons.mp hnames
      rw [way, List.mem_cons, hname.step, ih hrest, List.append_assoc, List.singleton_append]
      constructor
      · rintro (rfl | ⟨hbelow, habove⟩)
        · exact ⟨List.prefix_rfl, List.prefix_append _ _⟩
        · exact ⟨(List.prefix_append location [name]).trans hbelow, habove⟩
      · rintro ⟨⟨inner, rfl⟩, habove⟩
        rw [List.prefix_append_right_inj] at habove
        cases inner with
        | nil => exact .inl (List.append_nil location)
        | cons first inner =>
            obtain ⟨rfl, hinner⟩ := List.cons_prefix_cons.mp habove
            exact .inr ⟨(List.prefix_append_right_inj location).mpr ⟨inner, rfl⟩,
              (List.prefix_append_right_inj location).mpr habove⟩

/-- Without a piece that leads upwards the way leads down to its goal. -/
theorem prefix_goal_of_mem_way (hdown : ".." ∉ pieces) (hplace : place ∈ way location pieces) :
    place <+: goal location pieces := by
  have hgoal : ∀ pieces location, ".." ∉ pieces → location <+: goal location pieces := by
    intro pieces
    induction pieces with
    | nil => exact fun location _ => List.prefix_rfl
    | cons piece rest ih =>
        intro location hdown
        rw [List.mem_cons, not_or] at hdown
        obtain ⟨hpiece, hrest⟩ := hdown
        have hstep : location <+: step location piece := by
          unfold step
          split
          · exact List.prefix_rfl
          · rw [if_neg (Ne.symm hpiece)]
            exact List.prefix_append _ _
        exact hstep.trans (ih _ hrest)
  induction pieces generalizing location with
  | nil => rw [List.mem_singleton.mp hplace]; exact List.prefix_rfl
  | cons piece rest ih =>
      rcases List.mem_cons.mp hplace with rfl | hlater
      · exact hgoal _ _ hdown
      · exact ih (fun hup => hdown (List.mem_cons_of_mem piece hup)) hlater

/-- Only the pieces that lead somewhere matter. -/
theorem mem_way_steps : place ∈ way location (steps pieces) ↔ place ∈ way location pieces := by
  induction pieces generalizing location with
  | nil => exact Iff.rfl
  | cons piece rest ih =>
      rw [steps, List.filter_cons]
      split
      · rw [way, way, List.mem_cons, List.mem_cons]
        exact or_congr_right ih
      · next hdrop =>
          have hstay : isNoStep piece = true := by simpa using hdrop
          rw [way, List.mem_cons, step_of_isNoStep hstay, or_iff_right_of_imp]
          · exact ih
          · rintro rfl
            exact mem_way_start

end Path

namespace Files

/-! ## Following paths -/

open BuildPipeline.Path (IsName goal way)

variable {files : Files} {location place : Location} {pieces : List String}

theorem walk_cons (files : Files) (location : Location) (piece : String) (rest : List String) :
    files.walk location (piece :: rest) =
      if !files.isDirectoryAt location then .error .notDirectory
      else if Path.isNoStep piece then files.walk location rest
      else if piece = ".." then files.walk location.dropLast rest
      else if Path.longestName < piece.utf8ByteSize then .error .nameTooLong
      else if (files.item? (location ++ [piece])).isSome then files.walk (location ++ [piece]) rest
      else .error .notFound :=
  rfl

/-- What is followed from something that is there is where the text leads, over things that are
there. -/
theorem walk_eq_ok (hfiles : files.WellFormed) (hstart : (files.item? location).isSome)
    (hwalk : files.walk location pieces = .ok place) :
    place = goal location pieces ∧ ∀ passed ∈ way location pieces, (files.item? passed).isSome := by
  induction pieces generalizing location with
  | nil =>
      obtain rfl := Except.ok.inj hwalk
      exact ⟨rfl, List.forall_mem_singleton.mpr hstart⟩
  | cons piece rest ih =>
      rw [walk_cons] at hwalk
      split at hwalk
      · cases hwalk
      next hdirectory =>
        have hitem : files.item? location = some .directory := by
          simpa [isDirectoryAt] using hdirectory
        have hnext : (files.item? (Path.step location piece)).isSome ∧
            files.walk (Path.step location piece) rest = .ok place := by
          rcases Path.piece_cases piece with hstay | rfl | hname
          · rw [Path.step_of_isNoStep hstay]
            rw [if_pos hstay] at hwalk
            exact ⟨hstart, hwalk⟩
          · rw [Path.step_up]
            rw [if_neg (by decide), if_pos rfl] at hwalk
            exact ⟨by rw [hfiles.dropLast hitem]; rfl, hwalk⟩
          · rw [hname.step]
            rw [if_neg (by rw [hname.1]; exact Bool.false_ne_true), if_neg hname.2] at hwalk
            split at hwalk
            · cases hwalk
            · split at hwalk
              · next hpresent => exact ⟨hpresent, hwalk⟩
              · cases hwalk
        obtain ⟨hgoal, hway⟩ := ih hnext.1 hnext.2
        exact ⟨hgoal, List.forall_mem_cons.mpr ⟨hstart, hway⟩⟩

/-- Names that fit a directory. -/
def Short (pieces : List String) : Prop :=
  ∀ piece ∈ pieces, IsName piece → piece.utf8ByteSize ≤ Path.longestName

theorem short_of_walk (hwalk : files.walk location pieces = .ok place) : Short pieces := by
  induction pieces generalizing location with
  | nil => exact fun _ hmem => absurd hmem List.not_mem_nil
  | cons piece rest ih =>
      rw [walk_cons] at hwalk
      split at hwalk
      · cases hwalk
      refine List.forall_mem_cons.mpr ?_
      rcases Path.piece_cases piece with hstay | rfl | hname
      · rw [if_pos hstay] at hwalk
        exact ⟨fun hname => (Bool.false_ne_true (hname.1.symm.trans hstay)).elim, ih hwalk⟩
      · rw [if_neg (by decide), if_pos rfl] at hwalk
        exact ⟨fun hname => absurd rfl hname.2, ih hwalk⟩
      · rw [if_neg (by rw [hname.1]; exact Bool.false_ne_true), if_neg hname.2] at hwalk
        split at hwalk
        · cases hwalk
        next hlength =>
          split at hwalk
          · exact ⟨fun _ => Nat.le_of_not_lt hlength, ih hwalk⟩
          · cases hwalk

/-- Where a path is not found, something on its way is missing. -/
theorem exists_missing_of_walk (hwalk : files.walk location pieces = .error .notFound) :
    ∃ passed ∈ way location pieces, files.item? passed = none := by
  induction pieces generalizing location with
  | nil => cases hwalk
  | cons piece rest ih =>
      rw [walk_cons] at hwalk
      split at hwalk
      · cases hwalk
      have hnext : files.item? (Path.step location piece) = none ∨
          files.walk (Path.step location piece) rest = .error .notFound := by
        rcases Path.piece_cases piece with hstay | rfl | hname
        · rw [if_pos hstay] at hwalk
          rw [Path.step_of_isNoStep hstay]
          exact .inr hwalk
        · rw [if_neg (by decide), if_pos rfl] at hwalk
          rw [Path.step_up]
          exact .inr hwalk
        · rw [if_neg (by rw [hname.1]; exact Bool.false_ne_true), if_neg hname.2] at hwalk
          rw [hname.step]
          split at hwalk
          · cases hwalk
          · split at hwalk
            · exact .inr hwalk
            · next hmissing => exact .inl (Option.not_isSome_iff_eq_none.mp hmissing)
      rcases hnext with hmissing | hlater
      · exact ⟨_, List.mem_cons_of_mem location Path.mem_way_start, hmissing⟩
      · obtain ⟨passed, hpassed, hmissing⟩ := ih hlater
        exact ⟨passed, List.mem_cons_of_mem location hpassed, hmissing⟩

/-- A way over directories can be followed. -/
theorem walk_of_directories (hshort : Short pieces)
    (hway : ∀ passed ∈ way location pieces, files.item? passed = some .directory)
    (last : List String) :
    files.walk location (pieces ++ last) = files.walk (goal location pieces) last := by
  induction pieces generalizing location with
  | nil => rfl
  | cons piece rest ih =>
      obtain ⟨hdirectory, hrest⟩ := List.forall_mem_cons.mp hway
      obtain ⟨hpiece, hshort⟩ := List.forall_mem_cons.mp hshort
      have hstep : files.walk location (piece :: (rest ++ last)) =
          files.walk (Path.step location piece) (rest ++ last) := by
        rw [walk_cons, if_neg (by simp [isDirectoryAt, hdirectory])]
        rcases Path.piece_cases piece with hstay | rfl | hname
        · rw [if_pos hstay, Path.step_of_isNoStep hstay]
        · rw [if_neg (by decide), if_pos rfl, Path.step_up]
        · have hpresent := hrest _ Path.mem_way_start
          rw [hname.step] at hpresent
          rw [if_neg (by rw [hname.1]; exact Bool.false_ne_true), if_neg hname.2,
            if_neg (Nat.not_lt.mpr (hpiece hname)), hname.step]
          simp [hpresent]
      rw [List.cons_append, hstep, ih hshort hrest]
      rfl

/-! ## Making directories -/

/-- Some directories are there afterwards, and nothing else is different. -/
structure MakesDirectories (files next : Files) (places : List Location) : Prop where
  wellFormed : next.WellFormed
  workingDirectory : next.workingDirectory = files.workingDirectory
  made : ∀ place ∈ places, next.item? place = some .directory
  others : ∀ place, place ∉ places → next.item? place = files.item? place
  clear : ∀ place ∈ places, files.item? place = none ∨ files.item? place = some .directory

/-- Each location is as it was, or a directory that was missing. -/
theorem MakesDirectories.item?_cases {next : Files} {places : List Location}
    (hmakes : MakesDirectories files next places) (place : Location) :
    next.item? place = files.item? place ∨
      files.item? place = none ∧ next.item? place = some .directory ∧ place ∈ places := by
  by_cases hmem : place ∈ places
  · have hmade := hmakes.made place hmem
    rcases hmakes.clear place hmem with hmissing | hdirectory
    · exact .inr ⟨hmissing, hmade, hmem⟩
    · exact .inl (hmade.trans hdirectory.symm)
  · exact .inl (hmakes.others place hmem)

theorem MakesDirectories.congr {next : Files} {places others : List Location}
    (hmakes : MakesDirectories files next places)
    (hsame : ∀ place, place ∈ others ↔ place ∈ places) :
    MakesDirectories files next others where
  wellFormed := hmakes.wellFormed
  workingDirectory := hmakes.workingDirectory
  made place hplace := hmakes.made place ((hsame place).mp hplace)
  others place hplace := hmakes.others place (mt (hsame place).mpr hplace)
  clear place hplace := hmakes.clear place ((hsame place).mp hplace)

/-- A directory that was there may be counted in. -/
theorem MakesDirectories.cons {next : Files} {places : List Location}
    (hmakes : MakesDirectories files next places)
    (hdirectory : files.item? location = some .directory) :
    MakesDirectories files next (location :: places) where
  wellFormed := hmakes.wellFormed
  workingDirectory := hmakes.workingDirectory
  made := by
    refine List.forall_mem_cons.mpr ⟨?_, hmakes.made⟩
    by_cases hmem : location ∈ places
    · exact hmakes.made location hmem
    · rw [hmakes.others location hmem, hdirectory]
  others place hplace := hmakes.others place fun hmem => hplace (List.mem_cons_of_mem location hmem)
  clear := List.forall_mem_cons.mpr ⟨.inr hdirectory, hmakes.clear⟩

/-- A directory that was missing is made first. -/
theorem MakesDirectories.of_set {next : Files} {places : List Location} {name : String}
    (hmissing : files.item? (location ++ [name]) = none)
    (hmakes : MakesDirectories (files.set (location ++ [name]) .directory) next places)
    (hmem : location ++ [name] ∈ places) : MakesDirectories files next places where
  wellFormed := hmakes.wellFormed
  workingDirectory := hmakes.workingDirectory
  made := hmakes.made
  others place hplace := by
    have hother : place ≠ location ++ [name] := fun heq => hplace (heq ▸ hmem)
    rw [hmakes.others place hplace, item?_set (by simp), if_neg hother]
  clear place hplace := by
    by_cases hsame : place = location ++ [name]
    · exact .inl (hsame ▸ hmissing)
    · have hclear := hmakes.clear place hplace
      rwa [item?_set (by simp), if_neg hsame] at hclear

/-- After the first piece the rest is made from where that leads. -/
theorem makes_cons {next : Files} {piece : String} {rest : List String}
    (hstart : files.item? location = some .directory)
    (hpiece : IsName piece → piece.utf8ByteSize ≤ Path.longestName)
    (hrest : place = goal (Path.step location piece) rest ∧ Short rest ∧
      MakesDirectories files next (way (Path.step location piece) rest)) :
    place = goal location (piece :: rest) ∧ Short (piece :: rest) ∧
      MakesDirectories files next (way location (piece :: rest)) := by
  obtain ⟨hgoal, hshort, hmakes⟩ := hrest
  exact ⟨hgoal, List.forall_mem_cons.mpr ⟨hpiece, hshort⟩, hmakes.cons hstart⟩

/-- Directories are made where the text leads, and on the way there. -/
theorem makeFrom_eq_ok {next : Files} (hfiles : files.WellFormed)
    (hstart : files.item? location = some .directory)
    (hmake : (makeFrom location pieces).run files = (.ok place, next)) :
    place = goal location pieces ∧ Short pieces ∧
      MakesDirectories files next (way location pieces) := by
  -- By induction on the pieces, from any directory: what was made for the first piece is one.
  induction pieces generalizing location files with
  | nil =>
      cases hmake
      exact ⟨rfl, fun _ hmem => absurd hmem List.not_mem_nil, hfiles, rfl,
        List.forall_mem_singleton.mpr hstart, fun _ _ => rfl,
        List.forall_mem_singleton.mpr (.inr hstart)⟩
  | cons piece rest ih =>
      rw [makeFrom] at hmake
      rcases Path.piece_cases piece with hstay | rfl | hname
      · rw [if_pos hstay] at hmake
        refine makes_cons hstart (fun hname => ?_) ?_
        · cases hstay.symm.trans hname.1
        · rw [Path.step_of_isNoStep hstay]
          exact ih hfiles hstart hmake
      · rw [if_neg (by decide), if_pos rfl] at hmake
        refine makes_cons hstart (fun hname => absurd rfl hname.2) ?_
        rw [Path.step_up]
        exact ih hfiles (hfiles.dropLast hstart) hmake
      · rw [if_neg (by rw [hname.1]; exact Bool.false_ne_true), if_neg hname.2] at hmake
        split at hmake
        · cases congrArg Prod.fst hmake
        next hlength =>
          obtain ⟨_, _, hget, hmake⟩ := FileChange.bind_eq_ok hmake
          cases hget
          refine makes_cons hstart (fun _ => Nat.le_of_not_lt hlength) ?_
          rw [hname.step]
          split at hmake
          · next hitem => exact ih hfiles hitem hmake
          · cases congrArg Prod.fst hmake
          · next hitem =>
              obtain ⟨_, _, hraise, hmodify⟩ := FileChange.bind_eq_ok hmake
              obtain ⟨-, rfl⟩ := FileChange.raise_eq_ok hraise
              obtain ⟨_, _, hset, hmade⟩ := FileChange.bind_eq_ok hmodify
              cases hset
              have hplain : files.item? (location ++ [piece]) ≠ some .directory := by
                rw [hitem]
                exact fun heq => nomatch heq
              have hnew : (files.set (location ++ [piece]) .directory).item?
                  (location ++ [piece]) = some .directory := by
                rw [item?_set (by simp), if_pos rfl]
              obtain ⟨hgoal, hshort, hmakes⟩ :=
                ih (hfiles.set hname hstart hplain .directory) hnew hmade
              exact ⟨hgoal, hshort, .of_set hitem hmakes Path.mem_way_start⟩

/-! ## Ways of paths -/

section Paths

variable {path : String} {next : Files} {places : List Location}

/-- Where a path starts. -/
def start (files : Files) (path : String) : Location :=
  if Path.isAbsolute path then [] else files.workingDirectory

/-- Where the text of a path leads, whether anything is there or not. -/
def goal (files : Files) (path : String) : Location :=
  Path.goal (files.start path) (Path.pieces path)

/-- The locations that the text of a path passes. -/
def way (files : Files) (path : String) : List Location :=
  Path.way (files.start path) (Path.pieces path)

theorem start_congr (hworking : next.workingDirectory = files.workingDirectory) (path : String) :
    next.start path = files.start path := by
  rw [start, start, hworking]

theorem goal_congr (hworking : next.workingDirectory = files.workingDirectory) (path : String) :
    next.goal path = files.goal path := by
  rw [goal, goal, start_congr hworking]

theorem way_congr (hworking : next.workingDirectory = files.workingDirectory) (path : String) :
    next.way path = files.way path := by
  rw [way, way, start_congr hworking]

theorem locate_eq_ok (hfiles : files.WellFormed) (hlocate : files.locate path = .ok place) :
    place = files.goal path ∧ ∀ passed ∈ files.way path, (files.item? passed).isSome := by
  unfold locate at hlocate
  split at hlocate
  · cases hlocate
  · split at hlocate
    · cases hlocate
    · change files.walk (files.start path) (Path.pieces path) = .ok place at hlocate
      refine walk_eq_ok hfiles ?_ hlocate
      cases hpieces : Path.pieces path with
      | nil => exact absurd hpieces (Path.pieces_ne_nil path)
      | cons piece rest =>
          rw [hpieces, walk] at hlocate
          split at hlocate
          · cases hlocate
          · next hdirectory =>
              have hitem : files.item? (files.start path) = some .directory := by
                simpa [isDirectoryAt] using hdirectory
              rw [hitem]
              rfl

theorem locate_of_isPresent (hfiles : files.WellFormed) (hpresent : files.isPresent path = true) :
    files.locate path = .ok (files.goal path) := by
  unfold isPresent at hpresent
  cases hlocate : files.locate path with
  | error error =>
      rw [hlocate] at hpresent
      cases hpresent
  | ok place => rw [(locate_eq_ok hfiles hlocate).1]

theorem exists_missing_of_locate (hpath : path ≠ "")
    (hlocate : files.locate path = .error .notFound) :
    ∃ passed ∈ files.way path, files.item? passed = none := by
  rw [locate, if_neg hpath] at hlocate
  split at hlocate
  · cases hlocate
  · exact exists_missing_of_walk hlocate

theorem run_makeAll (hlength : ¬ Path.longest < path.utf8ByteSize) :
    (makeAll path).run files = (makeFrom (files.start path) (Path.pieces path)).run files := by
  simp only [makeAll, if_neg hlength]
  rfl

theorem makeAll_eq_ok (hfiles : files.WellFormed)
    (hstart : files.item? (files.start path) = some .directory)
    (hmake : (makeAll path).run files = (.ok place, next)) :
    place = files.goal path ∧ path.utf8ByteSize ≤ Path.longest ∧ Short (Path.pieces path) ∧
      MakesDirectories files next (files.way path) := by
  by_cases hlength : Path.longest < path.utf8ByteSize
  · simp only [makeAll, if_pos hlength] at hmake
    obtain ⟨_, _, hthrow, -⟩ := FileChange.bind_eq_ok hmake
    cases congrArg Prod.fst hthrow
  · rw [run_makeAll hlength] at hmake
    obtain ⟨hgoal, hshort, hmakes⟩ := makeFrom_eq_ok hfiles hstart hmake
    exact ⟨hgoal, Nat.le_of_not_lt hlength, hshort, hmakes⟩

/-- A path has a clear way for a source to be copied there, if it starts in a directory outside of
its goal, if what is not found at the goal is not there, and if making the way puts no directory
into the goal or into the source.  Only pieces that lead upwards can be in the way of that. -/
structure HasClearWay (files : Files) (source : Location) (path : String) : Prop where
  start : files.item? (files.start path) = some .directory ∧ ¬ files.goal path <+: files.start path
  found : ∀ place ∈ files.way path, files.item? place = none → files.item? (files.goal path) = none
  goal : ∀ place ∈ files.way path, place = files.goal path ∨ ¬ files.goal path <+: place
  source : ∀ place ∈ files.way path, source <+: place →
    place <+: files.goal path ∨ files.item? place = some .directory

/-- Without a piece that leads upwards the way is clear. -/
theorem hasClearWay_of_down (hfiles : files.WellFormed) (hdown : ".." ∉ Path.pieces path)
    (hstart : files.item? (files.start path) = some .directory)
    (hproper : files.goal path ≠ files.start path) (source : Location) :
    files.HasClearWay source path := by
  have habove : ∀ place ∈ files.way path, place <+: files.goal path := fun place hplace =>
    Path.prefix_goal_of_mem_way hdown hplace
  have hsame : ∀ place ∈ files.way path, files.goal path <+: place → place = files.goal path :=
    fun place hplace hbelow => (habove place hplace).eq_of_length
      (Nat.le_antisymm (habove place hplace).length_le hbelow.length_le)
  refine ⟨⟨hstart, fun hbelow => hproper (hsame _ Path.mem_way_start hbelow).symm⟩,
    fun place hplace hmissing => hfiles.item?_of_absent hmissing (habove place hplace),
    fun place hplace => or_iff_not_imp_right.mpr fun hbelow => ?_,
    fun place hplace _ => .inl (habove place hplace)⟩
  exact hsame place hplace (not_not.mp hbelow)

namespace HasClearWay

variable {source : Location}

/-- When nothing is at the goal any more, what is outside of it decides. -/
theorem congr (hclear : files.HasClearWay source path)
    (hworking : next.workingDirectory = files.workingDirectory)
    (habsent : next.item? (files.goal path) = none)
    (hsame : ∀ place, ¬ files.goal path <+: place → next.item? place = files.item? place) :
    next.HasClearWay source path := by
  have hstart := start_congr hworking path
  have hgoal := goal_congr hworking path
  have hway := way_congr hworking path
  refine ⟨?_, fun _ _ _ => by rw [hgoal, habsent], ?_, ?_⟩
  · rw [hstart, hgoal, hsame _ hclear.start.2]
    exact hclear.start
  · rw [hgoal, hway]
    exact hclear.goal
  · rw [hgoal, hway]
    intro place hplace hbelow
    rcases hclear.goal place hplace with rfl | houtside
    · exact .inl List.prefix_rfl
    · rw [hsame place houtside]
      exact hclear.source place hplace hbelow

theorem ne_empty (hclear : files.HasClearWay source path) : path ≠ "" := by
  rintro rfl
  exact hclear.start.2 List.prefix_rfl

theorem locate_eq (hclear : files.HasClearWay source path)
    (hlength : path.utf8ByteSize ≤ Path.longest)
    (hworking : next.workingDirectory = files.workingDirectory) :
    next.locate path = next.walk (files.start path) (Path.pieces path) := by
  rw [← start_congr hworking, locate, if_neg hclear.ne_empty, if_neg (Nat.not_lt.mpr hlength)]
  rfl

/-- Making the way puts nothing into the goal. -/
theorem item?_below_goal {made : Files} (hclear : files.HasClearWay source path)
    (hmakes : MakesDirectories files made places)
    (hplaces : ∀ place ∈ places, place ∈ files.way path) {rest : Location} (hrest : rest ≠ []) :
    made.item? (files.goal path ++ rest) = files.item? (files.goal path ++ rest) := by
  refine hmakes.others _ fun hmem => ?_
  rcases hclear.goal _ (hplaces _ hmem) with hsame | houtside
  · exact hrest (List.append_cancel_left (hsame.trans (List.append_nil _).symm))
  · exact houtside (List.prefix_append _ _)

/-- Making the way puts nothing into a source that the goal is not in. -/
theorem item?_of_source {made : Files} (hclear : files.HasClearWay source path)
    (hmakes : MakesDirectories files made places)
    (hplaces : ∀ place ∈ places, place ∈ files.way path)
    (hoff : ¬ source <+: files.goal path) (rest : Location) :
    made.item? (source ++ rest) = files.item? (source ++ rest) := by
  rcases hmakes.item?_cases (source ++ rest) with hsame | ⟨hmissing, -, hmem⟩
  · exact hsame
  · rcases hclear.source _ (hplaces _ hmem) (List.prefix_append _ _) with habove | hdirectory
    · exact absurd ((List.prefix_append _ _).trans habove) hoff
    · cases hmissing.symm.trans hdirectory

end HasClearWay

/-! ## Where a file is written -/

theorem writable_eq_ok (hwritable : files.writable path = .ok place) :
    ∃ front name parent, Path.pieces path = front ++ [name] ∧ IsName name ∧
      path.utf8ByteSize ≤ Path.longest ∧ name.utf8ByteSize ≤ Path.longestName ∧
      files.walk (files.start path) front = .ok parent ∧ place = parent ++ [name] ∧
      files.item? parent = some .directory ∧ files.item? place ≠ some .directory := by
  obtain ⟨front, name, hpieces⟩ : ∃ front name, Path.pieces path = front ++ [name] :=
    (List.eq_nil_or_concat' _).resolve_left (Path.pieces_ne_nil path)
  have hlast : (front ++ [name]).getLastD "" = name := by simp
  unfold writable at hwritable
  simp only [hpieces, hlast, List.dropLast_concat] at hwritable
  split at hwritable
  · cases hwritable
  next hlength =>
    change (files.walk (files.start path) front).bind _ = _ at hwritable
    cases hwalk : files.walk (files.start path) front with
    | error error =>
        rw [hwalk] at hwritable
        cases hwritable
    | ok parent =>
        simp only [hwalk, Except.bind] at hwritable
        split at hwritable
        · cases hwritable
        next hparent =>
          split at hwritable
          · cases hwritable
          next hname =>
            split at hwritable
            · cases hwritable
            next hshort =>
              split at hwritable
              · cases hwritable
              next hplain =>
                cases hwritable
                rw [Bool.not_eq_true, Bool.not_eq_false'] at hparent
                rw [Bool.or_eq_true, not_or, beq_iff_eq] at hname
                exact ⟨front, name, parent, hpieces, ⟨Bool.eq_false_iff.mpr hname.1, hname.2⟩,
                  Nat.le_of_not_lt hlength, Nat.le_of_not_lt hshort, hwalk, rfl,
                  isDirectoryAt_iff.mp hparent, mt isDirectoryAt_iff.mpr hplain⟩

end Paths

end Files
end BuildPipeline
