import BuildPipeline.Status

/-!
# What an aggregate depends on

The running aggregate of some statuses is their dominant one, which only asks what occurs among them
and not where: a failure dominates a cancellation, that dominates issues, and anything else counts
as success.  `aggregateAll` differs from it only where there is nothing but skipped children.

* `aggregateAll_eq_ite` reads an aggregate off what occurs, and `aggregateAll_congr` says that
  nothing else counts.
* `aggregateAll_cons_aggregateAll`: a child that is itself an aggregate stands for its own children.
  This is why `skipped` has to be kept: a group of skipped children must not count as a success.
* `aggregation_is_by_occurrence` puts together what follows for orders and for groupings.
-/

namespace BuildPipeline
namespace Status

/-- The first of failure, cancellation and issues that occurs; otherwise success. -/
def dominant (statuses : List Status) : Status :=
  if failed ∈ statuses then failed
  else if canceled ∈ statuses then canceled
  else if succeededWithIssues ∈ statuses then succeededWithIssues
  else succeeded

theorem aggregate_dominant (statuses : List Status) (status : Status) :
    (dominant statuses).aggregate status = dominant (statuses ++ [status]) := by
  simp only [dominant, List.mem_append, List.mem_singleton]
  by_cases hfailed : failed ∈ statuses
  · cases status <;> simp [hfailed, aggregate]
  by_cases hcanceled : canceled ∈ statuses
  · cases status <;> simp [hfailed, hcanceled, aggregate]
  by_cases hissues : succeededWithIssues ∈ statuses
  · cases status <;> simp [hfailed, hcanceled, hissues, aggregate]
  · cases status <;> simp [hfailed, hcanceled, hissues, aggregate]

/-- A running aggregate is the dominant status of everything it has seen. -/
theorem foldl_aggregate_dominant (seen rest : List Status) :
    rest.foldl aggregate (dominant seen) = dominant (seen ++ rest) := by
  induction rest generalizing seen with
  | nil => rw [List.foldl_nil, List.append_nil]
  | cons status rest ih =>
      rw [List.foldl_cons, aggregate_dominant, ih, List.append_assoc]
      rfl

theorem aggregateAll_eq (children : List Status) :
    aggregateAll children =
      if !children.isEmpty && children.all (· == skipped) then skipped else dominant children := by
  have hfold := foldl_aggregate_dominant [] children
  rw [List.nil_append] at hfold
  rw [aggregateAll, ← hfold]
  rfl

/-- Whatever the children are, the aggregate will not change any more. -/
theorem isTerminal_aggregateAll (children : List Status) :
    (aggregateAll children).isTerminal = true := by
  rw [aggregateAll_eq]
  unfold dominant
  split
  · rfl
  · repeat' split
    all_goals rfl

/-- The exceptional case has only skipped children. -/
theorem aggregateAll_eq_dominant {children : List Status} {status : Status}
    (hmem : status ∈ children) (hne : status ≠ skipped) :
    aggregateAll children = dominant children := by
  rw [aggregateAll_eq, if_neg]
  rw [Bool.and_eq_true, List.all_eq_true]
  exact fun hskipped => hne (beq_iff_eq.mp (hskipped.2 status hmem))

theorem aggregateAll_eq_failed_of_mem {children : List Status} (hfailed : failed ∈ children) :
    aggregateAll children = failed := by
  rw [aggregateAll_eq_dominant hfailed (by decide), dominant, if_pos hfailed]

theorem aggregateAll_of_canceled_mem {children : List Status} (hcanceled : canceled ∈ children) :
    aggregateAll children = if failed ∈ children then failed else canceled := by
  rw [aggregateAll_eq_dominant hcanceled (by decide), dominant, if_pos hcanceled]

theorem aggregateAll_of_issues_mem {children : List Status}
    (hissues : succeededWithIssues ∈ children) :
    aggregateAll children = if failed ∈ children then failed
      else if canceled ∈ children then canceled else succeededWithIssues := by
  rw [aggregateAll_eq_dominant hissues (by decide), dominant, if_pos hissues]

/-- A cancellation or a failure among the children is not lost, though one may stand for the
other. -/
theorem aggregateAll_canceled_or_failed {children : List Status}
    (hmem : canceled ∈ children ∨ failed ∈ children) :
    aggregateAll children = canceled ∨ aggregateAll children = failed := by
  rcases hmem with hcanceled | hfailed
  · rw [aggregateAll_of_canceled_mem hcanceled]
    split
    · exact Or.inr rfl
    · exact Or.inl rfl
  · exact Or.inr (aggregateAll_eq_failed_of_mem hfailed)

/-- Issues among the children are at least issues of the whole. -/
theorem aggregateAll_canceled_failed_or_issues {children : List Status}
    (hissues : succeededWithIssues ∈ children) :
    aggregateAll children = canceled ∨ aggregateAll children = failed ∨
      aggregateAll children = succeededWithIssues := by
  rw [aggregateAll_of_issues_mem hissues]
  split
  · exact Or.inr (Or.inl rfl)
  · split
    · exact Or.inl rfl
    · exact Or.inr (Or.inr rfl)

/-! ## Order and grouping -/

/-- What an aggregate is, by what occurs among the children. -/
theorem aggregateAll_eq_ite (children : List Status) :
    aggregateAll children =
      if failed ∈ children then failed
      else if canceled ∈ children then canceled
      else if succeededWithIssues ∈ children then succeededWithIssues
      else if children ≠ [] ∧ ∀ status ∈ children, status = skipped then skipped
      else succeeded := by
  have hskipped : (!children.isEmpty && children.all (· == skipped)) = true ↔
      children ≠ [] ∧ ∀ status ∈ children, status = skipped := by
    simp
  rw [aggregateAll_eq, dominant]
  by_cases hall : children ≠ [] ∧ ∀ status ∈ children, status = skipped
  · have hnone (status : Status) (hne : status ≠ skipped) : status ∉ children :=
      fun hmem => hne (hall.2 status hmem)
    rw [if_pos (hskipped.mpr hall), if_neg (hnone failed (by decide)),
      if_neg (hnone canceled (by decide)), if_neg (hnone succeededWithIssues (by decide)),
      if_pos hall]
  · rw [if_neg (mt hskipped.mp hall), if_neg hall]

/-- Children among which the same statuses occur have the same aggregate. -/
theorem aggregateAll_congr {children others : List Status}
    (hsame : ∀ status, status ∈ children ↔ status ∈ others) :
    aggregateAll children = aggregateAll others := by
  have hempty : children = [] ↔ others = [] := by
    simp only [List.eq_nil_iff_forall_not_mem, hsame]
  simp only [aggregateAll_eq_ite, hsame, ne_eq, hempty]

/-- An aggregate among the children stands for the children it is made of. -/
theorem aggregateAll_cons_aggregateAll {group : List Status} (hgroup : group ≠ [])
    (rest : List Status) :
    aggregateAll (aggregateAll group :: rest) = aggregateAll (group ++ rest) := by
  obtain ⟨first, hfirst⟩ := List.exists_mem_of_ne_nil group hgroup
  rw [aggregateAll_eq_ite group]
  by_cases hfailed : failed ∈ group
  · rw [if_pos hfailed, aggregateAll_eq_failed_of_mem List.mem_cons_self,
      aggregateAll_eq_failed_of_mem (List.mem_append_left rest hfailed)]
  by_cases hcanceled : canceled ∈ group
  · simp [aggregateAll_eq_ite, hfailed, hcanceled]
  by_cases hissues : succeededWithIssues ∈ group
  · simp [aggregateAll_eq_ite, hfailed, hcanceled, hissues]
  by_cases hskipped : ∀ status ∈ group, status = skipped
  · -- The group and its aggregate both hold `skipped` and nothing else.
    rw [if_neg hfailed, if_neg hcanceled, if_neg hissues, if_pos ⟨hgroup, hskipped⟩]
    refine aggregateAll_congr fun status => ?_
    have hmem : status ∈ group ↔ status = skipped :=
      ⟨hskipped status, fun heq => heq ▸ hskipped first hfirst ▸ hfirst⟩
    rw [List.mem_cons, List.mem_append, hmem]
  · obtain ⟨other, hother, hne⟩ : ∃ other ∈ group, other ≠ skipped := by
      simpa using hskipped
    rw [if_neg hfailed, if_neg hcanceled, if_neg hissues, if_neg fun hall => hskipped hall.2,
      aggregateAll_eq_dominant List.mem_cons_self (by decide),
      aggregateAll_eq_dominant (List.mem_append_left rest hother) hne]
    simp [dominant, hfailed, hcanceled, hissues]

theorem aggregateAll_append_map_aggregateAll (front : List Status) {groups : List (List Status)}
    (hgroups : ∀ group ∈ groups, group ≠ []) :
    aggregateAll (front ++ groups.map aggregateAll) = aggregateAll (front ++ groups.flatten) := by
  -- The groups that are taken apart already join the front.
  induction groups generalizing front with
  | nil => rfl
  | cons group groups ih =>
      obtain ⟨hgroup, hrest⟩ := List.forall_mem_cons.mp hgroups
      calc aggregateAll (front ++ aggregateAll group :: groups.map aggregateAll)
          = aggregateAll (aggregateAll group :: (front ++ groups.map aggregateAll)) :=
            aggregateAll_congr fun status => List.perm_middle.mem_iff
        _ = aggregateAll (group ++ (front ++ groups.map aggregateAll)) :=
            aggregateAll_cons_aggregateAll hgroup _
        _ = aggregateAll (group ++ front ++ groups.flatten) := by
            rw [← List.append_assoc, ih (group ++ front) hrest]
        _ = aggregateAll (front ++ (group ++ groups.flatten)) := by
            refine aggregateAll_congr fun status => ?_
            simp only [List.mem_append, or_assoc, or_left_comm]

/-- The status of a node depends on which statuses its children have and on nothing else.  So the
children may be in any order, and they may be put into any groups, none of them empty, whose
aggregates are the children instead. -/
theorem aggregation_is_by_occurrence (children : List Status) :
    aggregateAll children =
      (if failed ∈ children then failed
      else if canceled ∈ children then canceled
      else if succeededWithIssues ∈ children then succeededWithIssues
      else if children ≠ [] ∧ ∀ status ∈ children, status = skipped then skipped
      else succeeded) ∧
    (∀ others, others.Perm children → aggregateAll others = aggregateAll children) ∧
    ∀ groups : List (List Status), (∀ group ∈ groups, group ≠ []) →
      groups.flatten.Perm children →
      aggregateAll (groups.map aggregateAll) = aggregateAll children := by
  have hperm : ∀ others, others.Perm children → aggregateAll others = aggregateAll children :=
    fun others hothers => aggregateAll_congr fun status => hothers.mem_iff
  refine ⟨aggregateAll_eq_ite children, hperm, fun groups hgroups hflatten => ?_⟩
  have hapart := aggregateAll_append_map_aggregateAll [] hgroups
  rw [List.nil_append, List.nil_append] at hapart
  rw [hapart]
  exact hperm _ hflatten

/-- Two skipped jobs may be a stage of their own, behind a stage with issues or in front of it. -/
theorem aggregation_is_by_occurrence_stages :
    [succeededWithIssues, succeeded, skipped, skipped].Perm
        [skipped, succeeded, skipped, succeededWithIssues] ∧
      aggregateAll [succeededWithIssues, succeeded, skipped, skipped] = succeededWithIssues ∧
      (∀ group ∈ [[skipped, skipped], [succeededWithIssues, succeeded]], group ≠ []) ∧
      [[skipped, skipped], [succeededWithIssues, succeeded]].flatten.Perm
        [skipped, succeeded, skipped, succeededWithIssues] ∧
      aggregateAll ([[skipped, skipped], [succeededWithIssues, succeeded]].map aggregateAll) =
        succeededWithIssues := by
  obtain ⟨hstatus, hperm, hgroup⟩ :=
    aggregation_is_by_occurrence [skipped, succeeded, skipped, succeededWithIssues]
  have hissues : aggregateAll [skipped, succeeded, skipped, succeededWithIssues] =
      succeededWithIssues := hstatus.trans (by decide)
  have horder : [succeededWithIssues, succeeded, skipped, skipped].Perm
      [skipped, succeeded, skipped, succeededWithIssues] := by decide
  have hgroups : ∀ group ∈ [[skipped, skipped], [succeededWithIssues, succeeded]], group ≠ [] := by
    decide
  have hflatten : [[skipped, skipped], [succeededWithIssues, succeeded]].flatten.Perm
      [skipped, succeeded, skipped, succeededWithIssues] := by decide
  exact ⟨horder, (hperm _ horder).trans hissues, hgroups, hflatten,
    (hgroup _ hgroups hflatten).trans hissues⟩

end Status
end BuildPipeline
