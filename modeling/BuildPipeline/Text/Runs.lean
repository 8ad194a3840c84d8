/-!
# Sets of characters as runs

A set of code points is given by its boundaries in ascending order: the first belongs to the set,
the next is the first one that does not, and so on.  The tables of character properties are
written in this form.
-/

namespace BuildPipeline.Text

/-- Whether an odd number of boundaries lies at or below the code point. -/
def inRuns (boundaries : List Nat) (code : Nat) : Bool :=
  (boundaries.takeWhile (· ≤ code)).length % 2 == 1

end BuildPipeline.Text
