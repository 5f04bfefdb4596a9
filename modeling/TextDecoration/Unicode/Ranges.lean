/-!
# Sorted ranges of code points

A character property is kept as the list of its maximal runs of code points, in ascending order.
Membership walks the list and stops at the first run that begins beyond the code point, so the
frequent low code points are decided after a few steps. The walk answers "is in some run" only
for an ascending list; the tables below this module are ascending.
-/

namespace TextDecoration.Unicode

/-- Runs of code points, first and last included, ascending and apart from one another. -/
abbrev Ranges := List (Nat × Nat)

/-- Whether a code point lies in one of the runs. A run that begins beyond it ends the walk. -/
def Ranges.contains : Ranges → Nat → Bool
  | [], _ => false
  | (first, last) :: later, point =>
    if point < first then false
    else if point ≤ last then true
    else contains later point

end TextDecoration.Unicode
