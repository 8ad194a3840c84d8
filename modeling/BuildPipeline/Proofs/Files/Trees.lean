import BuildPipeline.Files.Change
import Mathlib.Data.List.Infix

/-!
# File trees that hang together

The entries of a file tree are a list, which could hold a file below a file or a name that no path
reaches.  `Files.WellFormed` excludes that, and then what is there can be read off locations: above
it are directories, below a file there is nothing.

A tree is only looked at through `item?`.  Here is what the two basic changes do to it, setting an
entry (`item?_set`) and removing a location (`remove_eq_ok`), and that both keep a tree well
formed.
-/

namespace BuildPipeline

/-! ## Changes -/

namespace FileChange

variable {α β : Type} {files middle next : Files} {change : FileChange α} {rest : α → FileChange β}

theorem run_bind_of_ok {value : α} (hchange : change.run files = (.ok value, middle)) :
    (change >>= rest).run files = (rest value).run middle := by
  have hunfold : (change >>= rest).run files =
      ExceptT.bindCont rest (change.run files).1 (change.run files).2 := rfl
  rw [hunfold, hchange]
  rfl

theorem run_bind_of_error {error : FileError}
    (hchange : change.run files = (.error error, middle)) :
    (change >>= rest).run files = (.error error, middle) := by
  have hunfold : (change >>= rest).run files =
      ExceptT.bindCont rest (change.run files).1 (change.run files).2 := rfl
  rw [hunfold, hchange]
  rfl

theorem run_get_bind (rest : Files → FileChange β) :
    (get >>= rest).run files = (rest files).run files :=
  rfl

theorem run_raise_none_bind (rest : Unit → FileChange β) :
    (raise none >>= rest).run files = (rest ()).run files :=
  rfl

theorem run_raise_some_bind (error : FileError) (rest : Unit → FileChange β) :
    (raise (some error) >>= rest).run files = (.error error, files) :=
  rfl

theorem run_bind_throw {first : FileChange Unit} {outcome : Except FileError Unit}
    (hfirst : first.run files = (outcome, middle)) (error : FileError) :
    (first >>= fun _ => (throw error : FileChange β)).run files =
      (.error (failure error outcome), middle) := by
  cases outcome with
  | ok done => exact run_bind_of_ok hfirst
  | error earlier => exact run_bind_of_error hfirst

theorem lift_eq_ok {outcome : Except FileError α} {value : α}
    (hlift : (outcome : FileChange α).run files = (.ok value, next)) :
    outcome = .ok value ∧ next = files := by
  cases outcome with
  | error error => cases congrArg Prod.fst hlift
  | ok other =>
      cases hlift
      exact ⟨rfl, rfl⟩

theorem raise_eq_ok {fault : Option FileError}
    (hraise : (raise fault).run files = (.ok (), next)) : fault = none ∧ files = next := by
  cases fault with
  | none =>
      cases hraise
      exact ⟨rfl, rfl⟩
  | some error => cases congrArg Prod.fst hraise

theorem bind_eq_ok {result : β} (hbind : (change >>= rest).run files = (.ok result, next)) :
    ∃ value middle, change.run files = (.ok value, middle) ∧
      (rest value).run middle = (.ok result, next) := by
  rcases hchange : change.run files with ⟨outcome, middle⟩
  cases outcome with
  | ok value =>
      rw [run_bind_of_ok hchange] at hbind
      exact ⟨value, middle, rfl, hbind⟩
  | error error =>
      rw [run_bind_of_error hchange] at hbind
      cases congrArg Prod.fst hbind

end FileChange

/-! ## Trees that hang together -/

/-- A piece of a path that leads into a directory. -/
def Path.IsName (piece : String) : Prop :=
  isNoStep piece = false ∧ piece ≠ ".."

instance (piece : String) : Decidable (Path.IsName piece) :=
  inferInstanceAs (Decidable (_ ∧ _))

namespace Files

variable {files : Files} {location place : Location}

/-- Everything that is there is in a directory and has a name. -/
structure WellFormed (files : Files) : Prop where
  parent : ∀ location name, (files.item? (location ++ [name])).isSome →
    files.item? location = some .directory
  name : ∀ location name, (files.item? (location ++ [name])).isSome → Path.IsName name

@[simp] theorem item?_nil (files : Files) : files.item? [] = some .directory :=
  if_pos rfl

theorem isDirectoryAt_iff : files.isDirectoryAt location = true ↔
    files.item? location = some .directory := by
  rw [isDirectoryAt, beq_iff_eq]

/-- A tree with these entries hangs together. -/
theorem wellFormed_of_entries
    (hentries : ∀ entry ∈ files.entries,
      files.item? entry.1.dropLast = some .directory ∧ ∀ name ∈ entry.1, Path.IsName name) :
    files.WellFormed := by
  have hentry : ∀ location name, (files.item? (location ++ [name])).isSome →
      files.item? location = some .directory ∧ Path.IsName name := by
    intro location name hpresent
    obtain ⟨entry, hitem⟩ := Option.isSome_iff_exists.mp hpresent
    rw [item?, if_neg (by simp)] at hitem
    obtain ⟨hparent, hnames⟩ := hentries _ (Table.mem_of_lookup_eq_some hitem)
    rw [List.dropLast_concat] at hparent
    exact ⟨hparent, hnames name (by simp)⟩
  exact ⟨fun location name hpresent => (hentry location name hpresent).1,
    fun location name hpresent => (hentry location name hpresent).2⟩

namespace WellFormed

variable (hfiles : files.WellFormed)

include hfiles

/-- What is above something that is there is a directory. -/
theorem directory_of_prefix (hpresent : (files.item? place).isSome) (hextends : location <+: place)
    (hproper : location ≠ place) : files.item? location = some .directory := by
  obtain ⟨rest, rfl⟩ := hextends
  induction rest using List.reverseRecOn with
  | nil => exact absurd (List.append_nil location).symm hproper
  | append_singleton rest name ih =>
      rw [← List.append_assoc] at hpresent
      have hparent := hfiles.parent _ name hpresent
      by_cases hrest : rest = []
      · rwa [hrest, List.append_nil] at hparent
      · refine ih ?_ fun heq => hrest (List.append_cancel_left (heq.symm.trans ?_))
        · rw [hparent]
          rfl
        · exact (List.append_nil location).symm

/-- Nothing is below what is not a directory. -/
theorem item?_below (hplain : files.item? location ≠ some .directory) {rest : Location}
    (hrest : rest ≠ []) : files.item? (location ++ rest) = none := by
  rw [← Option.not_isSome_iff_eq_none]
  intro hpresent
  refine hplain (hfiles.directory_of_prefix hpresent (List.prefix_append location rest) ?_)
  exact fun heq => hrest (List.append_cancel_left (heq.symm.trans (List.append_nil location).symm))

theorem item?_of_absent (habsent : files.item? location = none) (hextends : location <+: place) :
    files.item? place = none := by
  obtain ⟨rest, rfl⟩ := hextends
  by_cases hrest : rest = []
  · rwa [hrest, List.append_nil]
  · refine hfiles.item?_below ?_ hrest
    rw [habsent]
    exact fun heq => nomatch heq

theorem dropLast (hdirectory : files.item? location = some .directory) :
    files.item? location.dropLast = some .directory := by
  cases location using List.reverseRecOn with
  | nil => exact item?_nil files
  | append_singleton location name =>
      rw [List.dropLast_concat]
      exact hfiles.parent _ name (by rw [hdirectory]; rfl)

theorem names (hpresent : (files.item? location).isSome) : ∀ name ∈ location, Path.IsName name := by
  induction location using List.reverseRecOn with
  | nil => exact fun _ hmem => absurd hmem List.not_mem_nil
  | append_singleton location name ih =>
      rw [List.forall_mem_append]
      refine ⟨ih ?_, List.forall_mem_singleton.mpr (hfiles.name _ name hpresent)⟩
      rw [hfiles.parent _ name hpresent]
      rfl

end WellFormed

/-! ## What changes change -/

theorem lookup_filter (place : Location) (entries : List (Location × FileEntry))
    (kept : Location → Bool) :
    (entries.filter fun entry => kept entry.1).lookup place =
      if kept place then entries.lookup place else none := by
  induction entries with
  | nil => simp
  | cons entry entries ih =>
      obtain ⟨held, item⟩ := entry
      by_cases hplace : place = held
      · subst hplace
        by_cases hkept : kept place
        · simp [hkept]
        · simp [hkept, ih]
      · by_cases hkept : kept held
        · simp [hkept, List.lookup_cons, beq_false_of_ne hplace, ih]
        · simp [hkept, List.lookup_cons, beq_false_of_ne hplace, ih]

theorem item?_set (hlocation : location ≠ []) (entry : FileEntry) :
    (files.set location entry).item? place =
      if place = location then some entry else files.item? place := by
  by_cases hroot : place = []
  · rw [hroot, if_neg (Ne.symm hlocation), item?_nil, item?_nil]
  · have hlookup := lookup_filter place files.entries fun other => decide (other ≠ location)
    rw [item?, if_neg hroot, set, List.lookup_append, hlookup, item?, if_neg hroot]
    by_cases hplace : place = location
    · simp [hplace]
    · simp [hplace, List.lookup_cons, beq_false_of_ne hplace]

/-- Something new in a directory, or something else in place of a file. -/
theorem WellFormed.set (hfiles : files.WellFormed) {name : String} (hname : Path.IsName name)
    (hparent : files.item? location = some .directory)
    (hplain : files.item? (location ++ [name]) ≠ some .directory) (entry : FileEntry) :
    (files.set (location ++ [name]) entry).WellFormed := by
  have hset : ∀ place, (files.set (location ++ [name]) entry).item? place =
      if place = location ++ [name] then some entry else files.item? place :=
    fun place => item?_set (by simp) entry
  refine ⟨fun above called hpresent => ?_, fun above called hpresent => ?_⟩
  · rw [hset] at hpresent ⊢
    by_cases hsame : above ++ [called] = location ++ [name]
    · obtain ⟨rfl, -⟩ := List.append_inj' hsame rfl
      rwa [if_neg (by simp)]
    · rw [if_neg hsame] at hpresent
      have habove := hfiles.parent above called hpresent
      have hother : above ≠ location ++ [name] := fun heq => hplain (heq ▸ habove)
      rwa [if_neg hother]
  · rw [hset] at hpresent
    by_cases hsame : above ++ [called] = location ++ [name]
    · obtain ⟨-, heq⟩ := List.append_inj' hsame rfl
      rwa [List.singleton_inj.mp heq]
    · rw [if_neg hsame] at hpresent
      exact hfiles.name above called hpresent

/-- What is written of a text: all of it, or a part when that fails. -/
theorem overwrite_eq_ok {source target : Location} {text : String} {next : Files}
    (hwrite : (overwrite source target text).run files = (.ok (), next)) :
    files.set target (.file (if source = target then "" else text)) = next := by
  rw [overwrite, FileChange.run_get_bind] at hwrite
  split at hwrite
  · cases hwrite
    rfl
  · cases congrArg Prod.fst hwrite
  · cases congrArg Prod.fst hwrite

theorem overwrite_eq_error {source target : Location} {text : String} {next : Files}
    {error : FileError} (hwrite : (overwrite source target text).run files = (.error error, next)) :
    files = next ∨ ∃ count,
      files.set target (.file (cutText count (if source = target then "" else text))) = next := by
  rw [overwrite, FileChange.run_get_bind] at hwrite
  split at hwrite
  · cases congrArg Prod.fst hwrite
  · cases hwrite
    exact .inl rfl
  · cases hwrite
    exact .inr ⟨_, rfl⟩

theorem item?_strip (hlocation : location ≠ []) (kept : Location → Bool) :
    (files.strip location kept).item? place =
      if files.outlasts location kept place then files.item? place else none := by
  by_cases hroot : place = []
  · have houtside : ¬ location <+: ([] : Location) := fun hextends =>
      hlocation (List.prefix_nil.mp hextends)
    have hstays : files.outlasts location kept [] = true := by
      rw [outlasts, Bool.eq_false_iff.mpr (mt List.isPrefixOf_iff_prefix.mp houtside)]
      rfl
    rw [hroot, if_pos hstays, item?_nil, item?_nil]
  · rw [item?, if_neg hroot, item?, if_neg hroot]
    exact lookup_filter place files.entries (files.outlasts location kept)

theorem outlasts_of_outside (houtside : ¬ location <+: place) (kept : Location → Bool) :
    files.outlasts location kept place = true := by
  rw [outlasts, Bool.eq_false_iff.mpr (mt List.isPrefixOf_iff_prefix.mp houtside)]
  rfl

theorem outlasts_of_mem {entry : Location × FileEntry} {kept : Location → Bool}
    (hentry : entry ∈ files.entries) (hkept : kept entry.1 = true) :
    files.outlasts location kept entry.1 = true := by
  rw [outlasts, Bool.or_eq_true, List.any_eq_true]
  exact .inr ⟨entry, hentry, by simp [hkept]⟩

theorem outlasts_of_prefix {above : Location} {kept : Location → Bool}
    (hstays : files.outlasts location kept place = true) (habove : above <+: place) :
    files.outlasts location kept above = true := by
  simp only [outlasts, Bool.or_eq_true, Bool.not_eq_true', List.any_eq_true, Bool.and_eq_true,
    List.isPrefixOf_iff_prefix] at hstays ⊢
  rcases hstays with houtside | ⟨entry, hentry, hkept, hextends⟩
  · refine .inl (Bool.eq_false_iff.mpr fun hinside => Bool.eq_false_iff.mp houtside ?_)
    rw [List.isPrefixOf_iff_prefix] at hinside ⊢
    exact hinside.trans habove
  · exact .inr ⟨entry, hentry, hkept, habove.trans hextends⟩

/-- What is removed is gone, with everything below it. -/
theorem remove_eq_ok {next : Files} (hlocation : location ≠ [])
    (hremove : (remove location).run files = (.ok (), next)) :
    next.workingDirectory = files.workingDirectory ∧
      ∀ place, next.item? place = if location <+: place then none else files.item? place := by
  rw [remove, FileChange.run_get_bind] at hremove
  split at hremove
  · cases hremove
    refine ⟨rfl, fun place => (item?_strip hlocation _).trans ?_⟩
    by_cases hextends : location <+: place
    · rw [if_pos hextends, outlasts, List.isPrefixOf_iff_prefix.mpr hextends]
      simp
    · rw [if_neg hextends, outlasts_of_outside hextends, if_pos rfl]
  · cases congrArg Prod.fst hremove

/-- A tree hangs together from which things go only with everything that is below them. -/
theorem WellFormed.of_part (hfiles : files.WellFormed) {next : Files} {stays : Location → Prop}
    [DecidablePred stays]
    (hnext : ∀ place, next.item? place = if stays place then files.item? place else none)
    (habove : ∀ above called, stays (above ++ [called]) → stays above) : next.WellFormed := by
  have hkept : ∀ above called, (next.item? (above ++ [called])).isSome →
      stays above ∧ (files.item? (above ++ [called])).isSome := by
    intro above called hpresent
    rw [hnext] at hpresent
    split at hpresent
    · next hstays => exact ⟨habove above called hstays, hpresent⟩
    · cases hpresent
  refine ⟨fun above called hpresent => ?_, fun above called hpresent => ?_⟩
  · obtain ⟨hstays, hpresent⟩ := hkept above called hpresent
    rw [hnext, if_pos hstays]
    exact hfiles.parent above called hpresent
  · exact hfiles.name above called (hkept above called hpresent).2

/-- What is left is still in its directories. -/
theorem WellFormed.of_remove (hfiles : files.WellFormed) {next : Files}
    (hnext : ∀ place, next.item? place = if location <+: place then none else files.item? place) :
    next.WellFormed := by
  have hpart : ∀ place, next.item? place =
      if ¬ location <+: place then files.item? place else none := by
    simpa only [ite_not] using hnext
  exact hfiles.of_part hpart fun _ _ houtside hextends =>
    houtside (hextends.trans (List.prefix_append _ _))

/-- What a removal leaves that has broken off: the location and some of what was below it. -/
structure RemovedInPart (files next : Files) (location : Location) : Prop where
  wellFormed : next.WellFormed
  workingDirectory : next.workingDirectory = files.workingDirectory
  root : next.item? location = files.item? location
  inside : ∀ rest, next.item? (location ++ rest) = files.item? (location ++ rest) ∨
    next.item? (location ++ rest) = none
  others : ∀ place, ¬ location <+: place → next.item? place = files.item? place

/-- A removal that fails has broken off. -/
theorem removedInPart_of_remove {next : Files} {error : FileError} (hfiles : files.WellFormed)
    (hlocation : location ≠ []) (hremove : (remove location).run files = (.error error, next)) :
    RemovedInPart files next location := by
  rw [remove, FileChange.run_get_bind] at hremove
  split at hremove
  · cases congrArg Prod.fst hremove
  · next kept _ _ =>
      cases hremove
      let stays (place : Location) : Bool := place == location || kept place
      have hpart (place : Location) : (files.strip location stays).item? place =
          if files.outlasts location stays place then files.item? place else none :=
        item?_strip hlocation stays
      refine ⟨hfiles.of_part hpart fun _ _ hstays =>
        outlasts_of_prefix hstays (List.prefix_append _ _), rfl, ?_, fun rest => ?_,
        fun place houtside => ?_⟩
      · rw [hpart]
        split
        · rfl
        · next hgone =>
            -- The location goes last, so it can only be missing if it was missing before.
            rw [item?, if_neg hlocation]
            refine (List.lookup_eq_none_iff.mpr fun entry hentry => bne_iff_ne.mpr ?_).symm
            rintro rfl
            exact hgone (outlasts_of_mem hentry (by simp [stays]))
      · rw [hpart]
        split
        · exact .inl rfl
        · exact .inr rfl
      · rw [hpart, if_pos (outlasts_of_outside houtside _)]

/-- The names in a directory are those under which something is there. -/
theorem mem_childNames {name : String} :
    name ∈ files.childNames location ↔ (files.item? (location ++ [name])).isSome := by
  rw [item?, if_neg (by simp), childNames, List.mem_filterMap]
  constructor
  · rintro ⟨⟨place, entry⟩, hmem, hname⟩
    dsimp only at hname
    split at hname
    · next hparent =>
        have hplace : place = location ++ [name] := by
          rw [← hparent]
          exact (List.dropLast_append_getLast? name hname).symm
        subst hplace
        exact List.lookup_isSome_iff.mpr ⟨_, hmem, beq_self_eq_true _⟩
    · cases hname
  · intro hpresent
    obtain ⟨entry, hlookup⟩ := Option.isSome_iff_exists.mp hpresent
    exact ⟨_, Table.mem_of_lookup_eq_some hlookup, by simp⟩

end Files
end BuildPipeline
