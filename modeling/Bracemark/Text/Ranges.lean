/-!
# Character classes as tables of ranges

A class of characters beyond ASCII is a list of ranges of code points in
ascending order. Membership stops at the first range that begins later.
-/

namespace Bracemark

/-- Whether a code point lies in one of the ascending ranges. -/
def inRanges : List (Nat × Nat) → Nat → Bool
  | [], _ => false
  | (low, high) :: rest, n => if n < low then false else n ≤ high || inRanges rest n

end Bracemark
