/-!
# Tables

Finite maps from texts, kept in the order of their keys.  The order is that of code points, which
is also the order of the UTF-8 bytes, and every key stands once; so two tables with the same entries
are equal and listing one gives its entries sorted.
-/

namespace BuildPipeline

/-- Entries in ascending order of their keys, as the functions below build them. -/
abbrev Table (α : Type) := List (String × α)

namespace Table

variable {α β : Type}

def get? (key : String) : Table α → Option α
  | [] => none
  | (k, value) :: rest => if k = key then some value else get? key rest

def contains (key : String) (table : Table α) : Bool :=
  (table.get? key).isSome

/-- Put an entry at its place, over one with the same key. -/
def insert (key : String) (value : α) : Table α → Table α
  | [] => [(key, value)]
  | (k, v) :: rest =>
    if key = k then (key, value) :: rest
    else if key < k then (key, value) :: (k, v) :: rest
    else (k, v) :: insert key value rest

def erase (key : String) (table : Table α) : Table α :=
  table.filter (·.1 ≠ key)

/-- The entries in any order, a later one winning over an earlier one with its key. -/
def ofList (entries : List (String × α)) : Table α :=
  entries.foldl (fun table entry => insert entry.1 entry.2 table) []

/-- `upper` on top of `lower`. -/
def union (upper lower : Table α) : Table α :=
  upper.foldl (fun table entry => insert entry.1 entry.2 table) lower

def mapValues (f : α → β) (table : Table α) : Table β :=
  table.map fun entry => (entry.1, f entry.2)

def keys (table : Table α) : List String :=
  table.map Prod.fst

def values (table : Table α) : List α :=
  table.map Prod.snd

/-! ## What is found after a change -/

theorem get?_insert (key other : String) (value : α) (table : Table α) :
    (table.insert key value).get? other = if key = other then some value else table.get? other := by
  induction table with
  | nil => simp [insert, get?]
  | cons entry rest ih =>
    obtain ⟨k, v⟩ := entry
    by_cases hkey : key = k
    · subst hkey
      by_cases hother : key = other <;> simp [insert, get?, hother]
    · by_cases hless : key < k
      · simp only [insert, hkey, hless, if_true, if_false, get?]
      · simp only [insert, hkey, hless, if_false, get?, ih]
        by_cases hfound : k = other
        · subst hfound
          simp [hkey]
        · simp [hfound]

/-! ## Lists of pairs in any order -/

/-- What is looked up stands in the list. -/
theorem mem_of_lookup_eq_some {α β : Type} [BEq α] [LawfulBEq α] {entries : List (α × β)} {key : α}
    {value : β} (hlookup : entries.lookup key = some value) : (key, value) ∈ entries := by
  obtain ⟨front, rest, rfl, -⟩ := List.lookup_eq_some_iff.mp hlookup
  exact List.mem_append_right front List.mem_cons_self

end Table

end BuildPipeline
