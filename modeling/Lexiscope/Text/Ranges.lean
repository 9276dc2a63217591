/-!
# Tables of code point ranges

A class of characters is given by the closed ranges of its code points.
-/

namespace Lexiscope.Text

abbrev RangeTable := List (Nat × Nat)

def RangeTable.contains (table : RangeTable) (c : Char) : Bool :=
  table.any fun r => r.1 ≤ c.toNat && c.toNat ≤ r.2

end Lexiscope.Text
