/-!
# Sets of code points

A property of characters is stored as a list of closed ranges of code points, ascending and
apart.  A lookup walks the list and stops at the first range that begins beyond the code point,
so the common scripts, which come first, cost a few comparisons.
-/

namespace LinkedTables.Text

/-- Closed ranges of code points, ascending and apart. -/
abbrev Ranges := List (Nat × Nat)

/-- Whether the code point `n` lies in one of the ranges. -/
def Ranges.contains : Ranges → Nat → Bool
  | [], _ => false
  | (low, high) :: rest, n => if n < low then false else n ≤ high || contains rest n

/-- Whether each range is in order and ends at least two before the next begins. -/
def Ranges.wellFormed : Ranges → Bool
  | [] => true
  | [r] => r.1 ≤ r.2
  | r :: s :: rest => r.1 ≤ r.2 && r.2 + 1 < s.1 && wellFormed (s :: rest)

/-- How many code points the ranges hold together. -/
def Ranges.count (rs : Ranges) : Nat := rs.foldr (fun r n => r.2 + 1 - r.1 + n) 0

end LinkedTables.Text
