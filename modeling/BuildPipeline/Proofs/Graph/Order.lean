import BuildPipeline.Graph.Order
import BuildPipeline.Proofs.Graph.Acyclicity
import Mathlib.Data.List.Nodup

/-!
# The order of the stages

The counts of a placement are a function of what is placed: a stage misses the entries of its
dependencies that name no placed stage.  So nothing is taken off a count that is not on it, and the
stages that have joined the queue are those whose dependencies are all placed.

* `Placement.Follows` is that invariant, with the order in which the stages have joined the queue.
* `Placement.Follows.place` places one stage.  It has to show that counting off succeeds.
* `Placement.Follows.exists_order` is the whole run, up to an empty queue.
* `order_is_topological` adds that the dependencies are well-founded, so nothing is left over.
* `order_is_by_opening` says which of two stages comes first.  It is not always the one declared
  first, also where neither waits for the other any more: `opened_stage_overtakes`.
-/

namespace BuildPipeline

/-! ## Counting down -/

/-- Everything that a stage depends on is among the names. -/
def StageNode.IsOpen (placed : List String) (node : StageNode) : Prop :=
  ∀ dependency ∈ node.dependencies, dependency ∈ placed

namespace Countdown

/-- The count of a stage when some names are placed. -/
def after (placed : List String) (node : StageNode) : Countdown where
  node := node
  missing := node.dependencies.countP (· ∉ placed)

theorem after_nil (node : StageNode) : after [] node = start node := by
  simp [after, start]

/-- A name that is placed takes its entries off what is missing. -/
theorem countP_notMem_concat {name : String} {placed : List String} (hnew : name ∉ placed)
    (dependencies : List String) :
    dependencies.countP (· ∉ placed) =
      dependencies.countP (· ∉ placed ++ [name]) + dependencies.count name := by
  induction dependencies with
  | nil => rfl
  | cons dependency rest ih =>
      rw [List.countP_cons, List.countP_cons, List.count_cons, ih]
      by_cases hname : dependency = name
      · subst hname
        simp [hnew]
        omega
      · simp [hname]
        omega

theorem countOff?_after {name : String} {placed : List String} (hnew : name ∉ placed)
    (node : StageNode) : (after placed node).countOff? name = some (after (placed ++ [name]) node) := by
  have hsplit := countP_notMem_concat hnew node.dependencies
  have hfits : node.dependencies.count name ≤ node.dependencies.countP (· ∉ placed) := by omega
  simp only [countOff?, after, hfits, if_true, Option.some.injEq, mk.injEq, true_and]
  omega

theorem mapM_countOff?_after {name : String} {placed : List String} (hnew : name ∉ placed)
    (stages : List StageNode) :
    (stages.map (after placed)).mapM (countOff? name) =
      some (stages.map (after (placed ++ [name]))) := by
  induction stages with
  | nil => rfl
  | cons node rest ih => simp [List.mapM_cons, countOff?_after hnew, ih]

theorem isOver_after {name : String} {placed : List String} {node : StageNode} :
    (after placed node).isOver name = true ↔ name ∈ node.dependencies ∧ node.IsOpen placed := by
  simp [isOver, after, StageNode.IsOpen]

/-- The stages that join the queue are taken from the declaration, in its order. -/
theorem opened_after (name : String) (placed : List String) (stages : List StageNode) :
    opened name (stages.map (after placed)) =
      stages.filter fun node => (after placed node).isOver name := by
  simp [opened, List.filter_map, Function.comp_def, after]

end Countdown

/-! ## Pairs in a list that grows at its end -/

section Pairs

variable {α : Type} {first second last : α} {items : List α}

theorem pair_sublist_concat_iff (hne : second ≠ last) :
    [first, second].Sublist (items ++ [last]) ↔ [first, second].Sublist items := by
  constructor
  · intro hpair
    obtain ⟨front, back, heq, hfront, hback⟩ := List.sublist_append_iff.mp hpair
    rcases List.sublist_singleton.mp hback with rfl | rfl
    · rwa [heq, List.append_nil]
    · have hends : [first] ++ [second] = front ++ [last] := heq
      exact absurd (List.append_inj' hends rfl).2 (by simpa using hne)
  · exact fun hpair => hpair.trans (List.sublist_append_left items [last])

theorem pair_sublist_concat_self (hfirst : first ∈ items) :
    [first, last].Sublist (items ++ [last]) :=
  (List.singleton_sublist.mpr hfirst).append (List.Sublist.refl [last])

/-- Of two items that stand once, not each stands before the other. -/
theorem not_pair_sublist_swap (hitems : items.Nodup) (hpair : [first, second].Sublist items) :
    ¬ [second, first].Sublist items := by
  induction items with
  | nil => simp at hpair
  | cons head rest ih =>
      obtain ⟨hhead, hrest⟩ := List.nodup_cons.mp hitems
      intro hswap
      rcases List.sublist_cons_iff.mp hpair with hforth | ⟨_, heq, hforth⟩
      · rcases List.sublist_cons_iff.mp hswap with hback | ⟨_, heq, -⟩
        · exact ih hrest hforth hback
        · obtain ⟨rfl, -⟩ := List.cons.inj heq
          exact hhead (hforth.subset (by simp))
      · obtain ⟨rfl, rfl⟩ := List.cons.inj heq
        rcases List.sublist_cons_iff.mp hswap with hback | ⟨_, heq, -⟩
        · exact hhead (hback.subset (by simp))
        · obtain ⟨rfl, -⟩ := List.cons.inj heq
          exact hhead (List.singleton_sublist.mp hforth)

/-- Nothing stands behind the last item. -/
theorem not_pair_sublist_concat_self (hitems : (items ++ [last]).Nodup) :
    ¬ [last, second].Sublist (items ++ [last]) := by
  intro hpair
  have hsecond : second ∈ items ++ [last] := hpair.subset (by simp)
  by_cases hlast : second = last
  · subst hlast
    exact not_pair_sublist_swap hitems hpair hpair
  · have hmem := (List.mem_append.mp hsecond).resolve_right (by simpa using hlast)
    exact not_pair_sublist_swap hitems (pair_sublist_concat_self hmem) hpair

/-- Of two items of a list one stands before the other. -/
theorem pair_sublist_or_swap (hfirst : first ∈ items) (hsecond : second ∈ items)
    (hne : first ≠ second) : [first, second].Sublist items ∨ [second, first].Sublist items := by
  induction items with
  | nil => cases hfirst
  | cons head rest ih =>
      rcases List.mem_cons.mp hfirst with rfl | hlater
      · have hrest := (List.mem_cons.mp hsecond).resolve_left hne.symm
        exact Or.inl ((List.singleton_sublist.mpr hrest).cons_cons _)
      · rcases List.mem_cons.mp hsecond with rfl | hbehind
        · exact Or.inr ((List.singleton_sublist.mpr hlater).cons_cons _)
        · exact (ih hlater hbehind).imp (·.cons head) (·.cons head)

end Pairs

/-! ## Placing the stages -/

/-- The second stage waits for a stage that is placed behind everything that the first one waits
for. -/
def OpensBefore (placed : List String) (first second : StageNode) : Prop :=
  ∃ dependency ∈ second.dependencies, ∀ other ∈ first.dependencies,
    [other, dependency].Sublist placed

/-- The first stage opens before the second one, or they open together and it is declared before
it. -/
def JoinsBefore (stages : List StageNode) (placed : List String) (first second : StageNode) : Prop :=
  OpensBefore placed first second ∨
    ¬ OpensBefore placed second first ∧ [first, second].Sublist stages

/-- What is placed later does not change which of two open stages opened first. -/
theorem opensBefore_concat_iff {name : String} {placed : List String} {first second : StageNode}
    (hnew : name ∉ placed) (hopen : second.IsOpen placed) :
    OpensBefore (placed ++ [name]) first second ↔ OpensBefore placed first second := by
  refine exists_congr fun dependency => and_congr_right fun hdependency => ?_
  have hne : dependency ≠ name := fun heq => hnew (heq ▸ hopen dependency hdependency)
  exact forall₂_congr fun _ _ => pair_sublist_concat_iff hne

theorem joinsBefore_concat_iff {name : String} {stages : List StageNode} {placed : List String}
    {first second : StageNode} (hnew : name ∉ placed) (hfirst : first.IsOpen placed)
    (hsecond : second.IsOpen placed) :
    JoinsBefore stages (placed ++ [name]) first second ↔ JoinsBefore stages placed first second :=
  or_congr (opensBefore_concat_iff hnew hsecond)
    (and_congr_left fun _ => not_congr (opensBefore_concat_iff hnew hfirst))

/-- Of two stages not each joins before the other. -/
theorem JoinsBefore.asymm {stages : List StageNode} {placed : List String}
    {first second : StageNode} (hstages : stages.Nodup) (hplaced : placed.Nodup)
    (hjoins : JoinsBefore stages placed first second) :
    ¬ JoinsBefore stages placed second first := by
  rintro (hopens | ⟨hnot, hdeclared⟩)
  · rcases hjoins with ⟨late, hlate, hbehind⟩ | ⟨hnot, -⟩
    · obtain ⟨later, hlater, hbehindLater⟩ := hopens
      exact not_pair_sublist_swap hplaced (hbehind later hlater) (hbehindLater late hlate)
    · exact hnot hopens
  · rcases hjoins with hopens | ⟨-, hother⟩
    · exact hnot hopens
    · exact not_pair_sublist_swap hstages hdeclared hother

namespace Placement

/-- What holds of a placement when some stages are placed: the counts, which stages have joined the
queue and in which order, and that every placed stage came after its dependencies. -/
structure Follows (stages placed : List StageNode) (placement : Placement) : Prop where
  countdowns : placement.countdowns = stages.map (Countdown.after (placed.map (·.name)))
  joined : ∀ node, node ∈ placed ++ placement.ready ↔
    node ∈ stages ∧ node.IsOpen (placed.map (·.name))
  distinct : ((placed ++ placement.ready).map (·.name)).Nodup
  queued : (placed ++ placement.ready).Pairwise (JoinsBefore stages (placed.map (·.name)))
  grounded : ∀ earlier node later, placed = earlier ++ node :: later →
    node.IsOpen (earlier.map (·.name))

variable {stages placed ready : List StageNode} {node : StageNode}

theorem follows_start (hnames : (stages.map (·.name)).Nodup) :
    (start stages).Follows stages [] := by
  refine ⟨?_, fun node => ?_, ?_, ?_, ?_⟩
  · exact List.map_congr_left fun node _ => (Countdown.after_nil node).symm
  · simp [start, StageNode.IsOpen, List.eq_nil_iff_forall_not_mem]
  · exact (List.filter_sublist.map _).nodup hnames
  · -- The roots stand in the order of declaration, and none of them waits for anything.
    refine List.pairwise_iff_forall_sublist.mpr fun {first second} hpair => Or.inr ⟨?_, ?_⟩
    · rintro ⟨dependency, hdependency, -⟩
      have hroot : first ∈ stages.filter (·.dependencies.isEmpty) := hpair.subset (by simp)
      rw [List.mem_filter, List.isEmpty_iff] at hroot
      rw [hroot.2] at hdependency
      cases hdependency
    · exact hpair.trans List.filter_sublist
  · intro earlier node later hplaced
    simp at hplaced

/-- The stages for which a placed stage was the last one to wait for. -/
def openedBy (stages placed : List StageNode) (node : StageNode) : List StageNode :=
  stages.filter fun other =>
    (Countdown.after (placed.map (·.name) ++ [node.name]) other).isOver node.name

theorem mem_openedBy {other : StageNode} :
    other ∈ openedBy stages placed node ↔ other ∈ stages ∧ node.name ∈ other.dependencies ∧
      other.IsOpen (placed.map (·.name) ++ [node.name]) := by
  rw [openedBy, List.mem_filter, Countdown.isOver_after]

namespace Follows

variable {countdowns : List Countdown}

theorem name_notMem (hfollows : Follows stages placed ⟨countdowns, node :: ready⟩) :
    node.name ∉ placed.map (·.name) := by
  have hdistinct := hfollows.distinct
  rw [List.map_append, List.map_cons] at hdistinct
  exact fun hmem => List.disjoint_of_nodup_append hdistinct hmem List.mem_cons_self

theorem nodup_concat (hfollows : Follows stages placed ⟨countdowns, node :: ready⟩) :
    (placed.map (·.name) ++ [node.name]).Nodup := by
  have hdistinct := hfollows.distinct
  rw [List.append_cons, List.map_append, List.map_append] at hdistinct
  exact hdistinct.of_append_left

theorem isOpen (hfollows : Follows stages placed ⟨countdowns, node :: ready⟩) {other : StageNode}
    (hother : other ∈ placed ++ node :: ready) : other.IsOpen (placed.map (·.name)) :=
  ((hfollows.joined other).mp hother).2

/-- A stage has joined the queue before, or it waited for the stage that is placed. -/
theorem joined_openedBy (hfollows : Follows stages placed ⟨countdowns, node :: ready⟩)
    (other : StageNode) :
    other ∈ (placed ++ node :: ready) ++ openedBy stages placed node ↔
      other ∈ stages ∧ other.IsOpen (placed.map (·.name) ++ [node.name]) := by
  rw [List.mem_append, hfollows.joined, mem_openedBy]
  constructor
  · rintro (⟨hstage, hold⟩ | ⟨hstage, -, hlast⟩)
    · exact ⟨hstage, fun dependency hdependency =>
        List.mem_append_left _ (hold dependency hdependency)⟩
    · exact ⟨hstage, hlast⟩
  · rintro ⟨hstage, hlast⟩
    by_cases hwaits : node.name ∈ other.dependencies
    · exact Or.inr ⟨hstage, hwaits, hlast⟩
    · refine Or.inl ⟨hstage, fun dependency hdependency => ?_⟩
      refine (List.mem_append.mp (hlast dependency hdependency)).resolve_right fun heq => ?_
      exact hwaits (List.mem_singleton.mp heq ▸ hdependency)

/-- No stage joins the queue twice: one that has joined it waits for nothing that is placed now. -/
theorem distinct_openedBy (hfollows : Follows stages placed ⟨countdowns, node :: ready⟩)
    (hnames : (stages.map (·.name)).Nodup) :
    (((placed ++ node :: ready) ++ openedBy stages placed node).map (·.name)).Nodup := by
  rw [List.map_append]
  refine hfollows.distinct.append ((List.filter_sublist.map _).nodup hnames) ?_
  intro name hold hlate
  obtain ⟨first, hfirst, rfl⟩ := List.mem_map.mp hold
  obtain ⟨second, hsecond, heq⟩ := List.mem_map.mp hlate
  obtain ⟨hstage, hwaits, -⟩ := mem_openedBy.mp hsecond
  obtain ⟨hother, hopen⟩ := (hfollows.joined first).mp hfirst
  obtain rfl := List.inj_on_of_nodup_map hnames hstage hother heq
  exact hfollows.name_notMem (hopen _ hwaits)

/-- The stages that join now open later than those in the queue, and together. -/
theorem queued_openedBy (hfollows : Follows stages placed ⟨countdowns, node :: ready⟩) :
    ((placed ++ node :: ready) ++ openedBy stages placed node).Pairwise
      (JoinsBefore stages (placed.map (·.name) ++ [node.name])) := by
  have hnew := hfollows.name_notMem
  refine List.pairwise_append.mpr ⟨?_, ?_, fun first hfirst second hsecond => ?_⟩
  · exact hfollows.queued.imp_of_mem fun hfirst hsecond hjoins =>
      (joinsBefore_concat_iff hnew (hfollows.isOpen hfirst) (hfollows.isOpen hsecond)).mpr hjoins
  · refine List.pairwise_iff_forall_sublist.mpr fun {first second} hpair => Or.inr ⟨?_, ?_⟩
    · -- The second one waits for the stage that is placed now, and nothing stands behind that.
      rintro ⟨dependency, -, hlast⟩
      have hsecond : second ∈ openedBy stages placed node := hpair.subset (by simp)
      exact not_pair_sublist_concat_self hfollows.nodup_concat
        (hlast node.name (mem_openedBy.mp hsecond).2.1)
    · exact hpair.trans List.filter_sublist
  · refine Or.inl ⟨node.name, (mem_openedBy.mp hsecond).2.1, fun other hother => ?_⟩
    exact pair_sublist_concat_self (hfollows.isOpen hfirst other hother)

theorem grounded_concat (hfollows : Follows stages placed ⟨countdowns, node :: ready⟩)
    {earlier later : List StageNode} {other : StageNode}
    (hsplit : placed ++ [node] = earlier ++ other :: later) :
    other.IsOpen (earlier.map (·.name)) := by
  rcases List.eq_nil_or_concat later with rfl | ⟨rest, last, rfl⟩
  · obtain ⟨rfl, hlast⟩ := List.append_inj' hsplit rfl
    obtain rfl : node = other := by simpa using hlast
    exact hfollows.isOpen (by simp)
  · rw [List.concat_eq_append, ← List.cons_append, ← List.append_assoc] at hsplit
    exact hfollows.grounded earlier other rest (List.append_inj' hsplit rfl).1

/-- Placing the first stage of the queue: counting it off succeeds, and what is known of the
placement is known of the next one. -/
theorem place (hfollows : Follows stages placed ⟨countdowns, node :: ready⟩)
    (hnames : (stages.map (·.name)).Nodup) :
    ∃ after, countdowns.mapM (Countdown.countOff? node.name) = some after ∧
      Follows stages (placed ++ [node]) ⟨after, ready ++ Countdown.opened node.name after⟩ := by
  have hcounted := Countdown.mapM_countOff?_after hfollows.name_notMem stages
  rw [← hfollows.countdowns] at hcounted
  refine ⟨_, hcounted, ?_⟩
  have hplaced : (placed ++ [node]).map (·.name) = placed.map (·.name) ++ [node.name] := by simp
  have hqueue : placed ++ [node] ++ (ready ++ openedBy stages placed node) =
      (placed ++ node :: ready) ++ openedBy stages placed node := by simp
  rw [Countdown.opened_after]
  constructor
  case countdowns => rw [hplaced]
  case joined =>
    rw [hplaced]
    exact hqueue ▸ hfollows.joined_openedBy
  case distinct => exact hqueue ▸ hfollows.distinct_openedBy hnames
  case queued =>
    rw [hplaced]
    exact hqueue ▸ hfollows.queued_openedBy
  case grounded => exact fun _ _ _ hsplit => hfollows.grounded_concat hsplit

/-- The whole run: nothing is taken off a count that is not on it, and it ends with an empty
queue. -/
theorem exists_order {placement : Placement} (hnames : (stages.map (·.name)).Nodup)
    (hfollows : Follows stages placed placement) :
    ∃ rest countdowns, placement.order? = some rest ∧
      Follows stages (placed ++ rest) ⟨countdowns, []⟩ := by
  fun_induction order? placement generalizing placed with
  | case1 placement hready =>
      obtain ⟨countdowns, ready⟩ := placement
      obtain rfl : ready = [] := hready
      exact ⟨[], countdowns, rfl, by rwa [List.append_nil]⟩
  | case2 placement node ready hready hcounted =>
      obtain ⟨countdowns, queue⟩ := placement
      obtain rfl : queue = node :: ready := hready
      obtain ⟨after, hafter, -⟩ := hfollows.place hnames
      rw [hafter] at hcounted
      cases hcounted
  | case3 placement node ready hready countdowns hcounted ih =>
      obtain ⟨before, queue⟩ := placement
      obtain rfl : queue = node :: ready := hready
      obtain ⟨after, hafter, hnext⟩ := hfollows.place hnames
      obtain rfl : after = countdowns := Option.some.inj (hafter.symm.trans hcounted)
      obtain ⟨rest, last, horder, hdone⟩ := ih hnext
      refine ⟨node :: rest, last, by rw [horder]; rfl, ?_⟩
      rwa [List.append_assoc] at hdone

end Follows

end Placement

/-! ## Graphs -/

namespace Graph

variable {graph : Graph}

/-- Where dependencies are well-founded, an empty queue means that every stage is placed. -/
theorem mem_of_follows {placed : List StageNode} {countdowns : List Countdown}
    (hsound : graph.precedence.Sound) (hnames : (graph.stages.map (·.name)).Nodup)
    (hfollows : Placement.Follows graph.stages placed ⟨countdowns, []⟩) :
    ∀ node, node ∈ placed ↔ node ∈ graph.stages := by
  have hjoined : ∀ node, node ∈ placed ↔
      node ∈ graph.stages ∧ node.IsOpen (placed.map (·.name)) := by
    simpa using hfollows.joined
  have hplaced : ∀ name, ∀ node ∈ graph.stages, node.name = name → node ∈ placed := by
    intro name
    induction name using hsound.wellFounded.induction with
    | _ name ih =>
        rintro node hnode rfl
        refine (hjoined node).mpr ⟨hnode, fun dependency hdependency => ?_⟩
        have hentry := mem_precedence hnode
        have hknown := hsound.known _ hentry dependency hdependency
        rw [names_precedence] at hknown
        obtain ⟨other, hother, rfl⟩ := List.mem_map.mp hknown
        have hprecedes : graph.precedence.Precedes other.name node.name := by
          rw [Precedence.Precedes,
            Precedence.before_eq_of_mem (by rwa [names_precedence]) hentry]
          exact hdependency
        exact List.mem_map_of_mem (ih other.name hprecedes other hother rfl)
  exact fun node => ⟨fun hnode => ((hjoined node).mp hnode).1, fun hnode =>
    hplaced node.name node hnode rfl⟩

/-- An accepted graph has an order, with all its stages. -/
theorem exists_order_of_sound (hsound : graph.precedence.Sound)
    (hnames : (graph.stages.map (·.name)).Nodup) :
    ∃ order countdowns, graph.order? = some order ∧ order.Perm graph.stages ∧
      Placement.Follows graph.stages order ⟨countdowns, []⟩ := by
  obtain ⟨order, countdowns, horder, hfollows⟩ :=
    (Placement.follows_start hnames).exists_order hnames
  rw [List.nil_append] at hfollows
  have hdistinct : order.Nodup := by
    have hall := hfollows.distinct
    rw [List.append_nil] at hall
    exact hall.of_map
  refine ⟨order, countdowns, horder, ?_, hfollows⟩
  exact (List.perm_ext_iff_of_nodup hdistinct hnames.of_map).mpr
    (mem_of_follows hsound hnames hfollows)

end Graph

/-! ## Four stages, two of them roots -/

namespace Relay

def stage (name : String) (dependencies : List String) : Stage where
  stage := some name
  dependsOn := .multiple dependencies

def node (name : String) (dependencies : List String) : StageNode where
  name := name
  stage := stage name dependencies
  dependencies := dependencies
  jobs := []

/-- The second stage waits for the third, which it names twice, and the fourth for the first. -/
def pipeline : Pipeline where
  stages := [stage "fetch" [], stage "pack" ["build", "build"], stage "build" [],
    stage "test" ["fetch"]]

def graph : Graph where
  stages := [node "fetch" [], node "pack" ["build", "build"], node "build" [],
    node "test" ["fetch"]]
  vars := []

theorem ofPipeline_pipeline : Graph.ofPipeline pipeline = .ok graph := by
  simp [Graph.ofPipeline, pipeline, graph, stage, node, stageNodes, Stage.jobNodes, jobNodes,
    nodeName, Stage.dependencyNames, DependsOn.names, DependsOn.isImplicit, Graph.precedence,
    JobNode.precedence, checkPrecedence, Precedence.dangling?, Precedence.cycle?, Precedence.visit,
    Precedence.before, Precedence.names, List.lookup_cons, List.findSome?_cons, bind, Except.bind,
    pure, Except.pure]

theorem order?_graph : graph.order? = some [node "fetch" [], node "build" [],
    node "test" ["fetch"], node "pack" ["build", "build"]] := by
  simp [Graph.order?, Placement.start, graph, Placement.order?_cons, Placement.order?_nil, node,
    Countdown.start, Countdown.countOff?, Countdown.opened, Countdown.isOver]

end Relay

/-! ## The order of an accepted graph -/

/-- Where stages have distinct names, an accepted graph puts every stage into its order once, behind
all stages that it depends on.  Counting the dependencies down never takes more off a count than is
on it, also where a stage lists a dependency more than once. -/
theorem order_is_topological {pipeline : Pipeline} {graph : Graph}
    (hgraph : Graph.ofPipeline pipeline = .ok graph)
    (hnames : (graph.stages.map (·.name)).Nodup) :
    ∃ order, graph.order? = some order ∧ order.Perm graph.stages ∧
      ∀ earlier node later, order = earlier ++ node :: later →
        ∀ dependency ∈ node.dependencies, ∃ other ∈ earlier, other.name = dependency := by
  obtain ⟨order, countdowns, horder, hperm, hfollows⟩ :=
    Graph.exists_order_of_sound (Graph.sound_of_ofPipeline hgraph).stages hnames
  refine ⟨order, horder, hperm, fun earlier node later hsplit dependency hdependency => ?_⟩
  exact List.mem_map.mp (hfollows.grounded earlier node later hsplit dependency hdependency)

/-- The stage that names its dependency twice is counted down by two at once. -/
theorem order_is_topological_relay :
    Graph.ofPipeline Relay.pipeline = .ok Relay.graph ∧
    (Relay.graph.stages.map (·.name)).Nodup ∧
    ∃ order, Relay.graph.order? = some order ∧ order.Perm Relay.graph.stages ∧
      ∀ earlier node later, order = earlier ++ node :: later →
        ∀ dependency ∈ node.dependencies, ∃ other ∈ earlier, other.name = dependency :=
  ⟨Relay.ofPipeline_pipeline, by decide,
    order_is_topological Relay.ofPipeline_pipeline (by decide)⟩

/-- Of two stages that one is placed first that opens first; if they open together, the one that is
declared first. -/
theorem order_is_by_opening {pipeline : Pipeline} {graph : Graph}
    (hgraph : Graph.ofPipeline pipeline = .ok graph)
    (hnames : (graph.stages.map (·.name)).Nodup) :
    ∃ order, graph.order? = some order ∧
      ∀ first ∈ graph.stages, ∀ second ∈ graph.stages, first ≠ second →
        ([first, second].Sublist order ↔
          JoinsBefore graph.stages (order.map (·.name)) first second) := by
  obtain ⟨order, countdowns, horder, hperm, hfollows⟩ :=
    Graph.exists_order_of_sound (Graph.sound_of_ofPipeline hgraph).stages hnames
  have hqueued : order.Pairwise (JoinsBefore graph.stages (order.map (·.name))) := by
    simpa using hfollows.queued
  refine ⟨order, horder, fun first hfirst second hsecond hne => ⟨?_, fun hjoins => ?_⟩⟩
  · exact fun hpair => List.pairwise_iff_forall_sublist.mp hqueued hpair
  · have hplaced : (order.map (·.name)).Nodup := (hperm.map (·.name)).nodup_iff.mpr hnames
    rcases pair_sublist_or_swap (hperm.mem_iff.mpr hfirst) (hperm.mem_iff.mpr hsecond) hne with
      hpair | hswap
    · exact hpair
    · have hback := List.pairwise_iff_forall_sublist.mp hqueued hswap
      exact absurd hback (hjoins.asymm hnames.of_map hplaced)

/-- The test comes before the packing, since it opens first. -/
theorem order_is_by_opening_relay :
    Graph.ofPipeline Relay.pipeline = .ok Relay.graph ∧
    (Relay.graph.stages.map (·.name)).Nodup ∧
    ∃ order, Relay.graph.order? = some order ∧
      [Relay.node "test" ["fetch"], Relay.node "pack" ["build", "build"]].Sublist order ∧
      JoinsBefore Relay.graph.stages (order.map (·.name)) (Relay.node "test" ["fetch"])
        (Relay.node "pack" ["build", "build"]) := by
  have hnames : (Relay.graph.stages.map (·.name)).Nodup := by decide
  obtain ⟨order, horder, hfirst⟩ := order_is_by_opening Relay.ofPipeline_pipeline hnames
  obtain rfl := Option.some.inj (Relay.order?_graph.symm.trans horder)
  have hpair := List.sublist_append_right [Relay.node "fetch" [], Relay.node "build" []]
    [Relay.node "test" ["fetch"], Relay.node "pack" ["build", "build"]]
  have hne : Relay.node "test" ["fetch"] ≠ Relay.node "pack" ["build", "build"] := fun heq =>
    absurd (congrArg StageNode.name heq) (by decide)
  refine ⟨Relay.ofPipeline_pipeline, hnames, _, horder, hpair, ?_⟩
  exact (hfirst _ (by simp [Relay.graph]) _ (by simp [Relay.graph]) hne).mp hpair

/-- The packing is declared before the test, and what it waits for is placed before the test.  The
test comes first all the same. -/
theorem opened_stage_overtakes :
    Graph.ofPipeline Relay.pipeline = .ok Relay.graph ∧
    (Relay.graph.stages.map (·.name)).Nodup ∧
    ∃ order first second, Relay.graph.order? = some order ∧
      [second, first].Sublist Relay.graph.stages ∧ [first, second].Sublist order ∧
      ∀ dependency ∈ second.dependencies,
        dependency ≠ first.name ∧ ¬ [first.name, dependency].Sublist (order.map (·.name)) := by
  refine ⟨Relay.ofPipeline_pipeline, by decide, _, Relay.node "test" ["fetch"],
    Relay.node "pack" ["build", "build"], Relay.order?_graph, ?_, ?_, by decide⟩
  · exact .cons _ (.cons_cons _ (.cons _ (.refl _)))
  · exact List.sublist_append_right [Relay.node "fetch" [], Relay.node "build" []] _

end BuildPipeline
