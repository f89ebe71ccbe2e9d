/-!
# Classes of characters given by ranges

A class of characters that no short rule describes is a table: the first and the last code point of
each of its ranges, in increasing order.  The search goes through the table from the front and
makes no use of the order, which is for readers of the table.
-/

set_option autoImplicit false

namespace MonkeyLang

/-- Whether the code point of a character lies in one of the ranges, whose ends belong to them. -/
def inRanges (ranges : List (Nat × Nat)) (c : Char) : Bool :=
  ranges.any fun r ↦ decide (r.1 ≤ c.toNat) && decide (c.toNat ≤ r.2)

end MonkeyLang
