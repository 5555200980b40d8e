/-!
# Sets of characters given by ranges

A character class beyond ASCII is a list of closed intervals of code points.  The tables of the
library (`Text.Letter`, `Text.Printable`) are such lists; membership is a plain search, so that a
statement about one character is settled by looking it up.
-/

namespace Reckon.Text

/-- A set of code points, as closed intervals. -/
abbrev Ranges := List (Nat × Nat)

namespace Ranges

/-- Some interval of the list holds `n`. -/
def contains (rs : Ranges) (n : Nat) : Bool :=
  rs.any fun r => decide (r.1 ≤ n) && decide (n ≤ r.2)

theorem contains_iff {rs : Ranges} {n : Nat} :
    rs.contains n = true ↔ ∃ r ∈ rs, r.1 ≤ n ∧ n ≤ r.2 := by
  simp [contains]

theorem contains_append (rs ss : Ranges) (n : Nat) :
    contains (rs ++ ss) n = (contains rs n || contains ss n) := by
  simp [contains]

end Ranges

end Reckon.Text
