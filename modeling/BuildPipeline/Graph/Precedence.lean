import BuildPipeline.Table

/-!
# Precedence among names

Nodes by name, each with the names it depends on.  This module finds a dependency on nothing, a
cycle, and everything a node depends on directly or through others.  Each search visits a name once,
so it ends on every relation, also on one with cycles.
-/

namespace BuildPipeline

/-- Nodes in the order of their declaration, each with its direct dependencies. -/
abbrev Precedence := List (String × List String)

namespace Precedence

def names (precedence : Precedence) : List String :=
  precedence.map Prod.fst

/-- The direct dependencies of a name.  Of two nodes with one name the later one counts. -/
def before (precedence : Precedence) (name : String) : List String :=
  (precedence.reverse.lookup name).getD []

/-- The first node with a dependency that names no node, and that dependency. -/
def dangling? (precedence : Precedence) : Option (String × String) :=
  precedence.findSome? fun (name, dependencies) =>
    (dependencies.find? (!precedence.names.contains ·)).map fun missing => (name, missing)

theorem before_eq_nil_of_notMem {precedence : Precedence} {name : String}
    (hname : name ∉ precedence.names) : precedence.before name = [] := by
  rw [before, List.lookup_eq_none_iff.mpr]
  · rfl
  · intro entry hentry
    rw [bne_iff_ne]
    rintro rfl
    exact hname (List.mem_map_of_mem (List.mem_reverse.mp hentry))

/-! ## Unvisited names -/

/-- The number of names that a search has not come to. -/
def unvisited (names visited : List String) : Nat :=
  names.countP (!visited.contains ·)

theorem unvisited_cons_le (names : List String) (name : String) (visited : List String) :
    unvisited names (name :: visited) ≤ unvisited names visited := by
  refine List.countP_mono_left fun other _ hother => ?_
  simp only [List.contains_cons, Bool.not_or, Bool.and_eq_true] at hother
  exact hother.2

theorem countP_lt_of_mem {α : Type} {p q : α → Bool} {a : α} {l : List α}
    (hmono : ∀ b ∈ l, p b = true → q b = true) (hmem : a ∈ l) (hq : q a = true)
    (hp : p a = false) : l.countP p < l.countP q := by
  induction l with
  | nil => cases hmem
  | cons b rest ih =>
    have hle : rest.countP p ≤ rest.countP q :=
      List.countP_mono_left fun c hc => hmono c (List.mem_cons_of_mem _ hc)
    rcases List.mem_cons.mp hmem with rfl | hmem
    · simp [hp, hq]
      omega
    · have hlt := ih (fun c hc => hmono c (List.mem_cons_of_mem _ hc)) hmem
      have hhead := hmono b List.mem_cons_self
      rw [List.countP_cons, List.countP_cons]
      by_cases hb : p b = true
      · simp [hb, hhead hb]
        omega
      · rw [if_neg hb]
        omega

theorem unvisited_cons_lt {name : String} {names visited : List String} (hname : name ∈ names)
    (hnew : name ∉ visited) : unvisited names (name :: visited) < unvisited names visited := by
  refine countP_lt_of_mem (fun other _ hother => ?_) hname ?_ ?_
  · simp only [List.contains_cons, Bool.not_or, Bool.and_eq_true] at hother
    exact hother.2
  · simpa using hnew
  · simp

/-! ## Cycles -/

/-- The part of a path, latest name first, from the last visit of a name, closed by that name. -/
def closeCycle (name : String) (path : List String) : List String :=
  name :: ((path.takeWhile (· ≠ name)).reverse ++ [name])

/-- Visit names depth first.  `path` leads to them, latest name first; `done` are names that no
cycle goes through.  An error is a cycle. -/
def visit (precedence : Precedence) (path done : List String) :
    List String → Except (List String) (List String)
  | [] => .ok done
  | name :: rest =>
    if name ∈ done then precedence.visit path done rest
    else if _hpath : name ∈ path then .error (closeCycle name path)
    else
      match precedence.visit (name :: path) done (precedence.before name) with
      | .error cycle => .error cycle
      | .ok done => precedence.visit path (name :: done) rest
termination_by names => (unvisited precedence.names path, names.length)
decreasing_by
  · exact Prod.Lex.right _ (Nat.lt_succ_self _)
  · by_cases hname : name ∈ precedence.names
    · exact Prod.Lex.left _ _ (unvisited_cons_lt hname _hpath)
    · rw [before_eq_nil_of_notMem hname]
      rcases Nat.lt_or_eq_of_le (unvisited_cons_le precedence.names name path) with hlt | heq
      · exact Prod.Lex.left _ _ hlt
      · rw [heq]
        exact Prod.Lex.right _ (Nat.succ_pos _)
  · exact Prod.Lex.right _ (Nat.lt_succ_self _)

/-- The first cycle in the order of declaration, with its first name repeated at the end. -/
def cycle? (precedence : Precedence) : Option (List String) :=
  match precedence.visit [] [] precedence.names with
  | .error cycle => some cycle
  | .ok _ => none

/-! ## Ancestors -/

/-- All entries of all dependencies. -/
def edges (precedence : Precedence) : List String :=
  precedence.flatMap Prod.snd

theorem mem_edges_of_mem_before {precedence : Precedence} {name dependency : String}
    (hdependency : dependency ∈ precedence.before name) : dependency ∈ precedence.edges := by
  rw [before] at hdependency
  cases hlookup : precedence.reverse.lookup name with
  | none => simp [hlookup] at hdependency
  | some dependencies =>
    rw [hlookup] at hdependency
    have hentry := List.mem_reverse.mp (Table.mem_of_lookup_eq_some hlookup)
    exact List.mem_flatMap.mpr ⟨_, hentry, hdependency⟩

/-- A search along dependencies: the names that were found, the latest one first, and the names
whose dependencies are still to be looked at, in the order in which they were found. -/
structure Search where
  found : List String
  pending : List String

namespace Search

/-- A search from a name, which is not found before something depends on it. -/
def start (name : String) : Search where
  found := []
  pending := [name]

/-- Find a name.  If it was found before there is nothing more to do. -/
def find (search : Search) (name : String) : Search :=
  if name ∈ search.found then search
  else { found := name :: search.found, pending := search.pending ++ [name] }

/-- Find everything that the next pending name depends on. -/
def next (precedence : Precedence) (search : Search) : Search :=
  match search.pending with
  | [] => search
  | name :: pending => (precedence.before name).foldl find { search with pending }

/-- A pending name costs a round, and every name that is not found yet may become a pending one. -/
def work (precedence : Precedence) (search : Search) : Nat :=
  unvisited precedence.edges search.found + search.pending.length

theorem work_find_le {precedence : Precedence} {name : String} (hname : name ∈ precedence.edges)
    (search : Search) : (search.find name).work precedence ≤ search.work precedence := by
  unfold find
  split
  · exact Nat.le_refl _
  · next hnew =>
    have hless := unvisited_cons_lt hname hnew
    simp only [work, List.length_append, List.length_singleton]
    omega

theorem work_foldl_find_le {precedence : Precedence} {names : List String}
    (hnames : ∀ name ∈ names, name ∈ precedence.edges) (search : Search) :
    (names.foldl find search).work precedence ≤ search.work precedence := by
  induction names generalizing search with
  | nil => exact Nat.le_refl _
  | cons name rest ih =>
    obtain ⟨hname, hrest⟩ := List.forall_mem_cons.mp hnames
    exact Nat.le_trans (ih hrest _) (work_find_le hname search)

theorem work_next_lt {precedence : Precedence} {search : Search} (hpending : search.pending ≠ []) :
    (search.next precedence).work precedence < search.work precedence := by
  unfold next
  split
  · contradiction
  · next name pending hsplit =>
    have hfound : ∀ dependency ∈ precedence.before name, dependency ∈ precedence.edges :=
      fun _ hdependency => mem_edges_of_mem_before hdependency
    have hless := work_foldl_find_le hfound { search with pending }
    simp only [work, hsplit, List.length_cons] at hless ⊢
    omega

/-- Go on until no name is pending. -/
def run (precedence : Precedence) (search : Search) : List String :=
  if _hpending : search.pending = [] then search.found
  else run precedence (search.next precedence)
termination_by search.work precedence
decreasing_by exact work_next_lt _hpending

end Search

/-- What a name depends on, directly or through others, sorted. -/
def ancestors (precedence : Precedence) (name : String) : List String :=
  ((Search.start name).run precedence).mergeSort fun a b => decide (a ≤ b)

end Precedence

end BuildPipeline
