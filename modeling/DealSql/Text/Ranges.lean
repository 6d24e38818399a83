/-!
# Character ranges

A property of characters is given by the ranges of code points that have
it: closed ranges, in increasing order, that do not touch.  The tables of
this folder are lists of this form.

* `Ranges.has` — membership; the scan stops at the first range beyond the
  character, so the common characters cost a few steps.
-/

namespace DealSql

/-- Closed ranges of code points in increasing order. -/
abbrev Ranges := List (Nat × Nat)

namespace Ranges

/-- Whether a code point lies in one of the ranges. -/
def has : Ranges → Nat → Bool
  | [], _ => false
  | (lo, hi) :: rest, n => if n < lo then false else n ≤ hi || has rest n

end Ranges

end DealSql
