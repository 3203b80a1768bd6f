/-!
Classes of characters as tables: closed ranges of code points in ascending order. The tables that
follow the Unicode standard hold its version 17.0.
-/

namespace LarkPhp.Text

/-- Closed ranges of code points. -/
abbrev Ranges := List (Nat × Nat)

namespace Ranges

/-- Whether one of the ranges holds a character. -/
def contains (rs : Ranges) (c : Char) : Bool :=
  rs.any fun (low, high) => low ≤ c.toNat && c.toNat ≤ high

end Ranges

end LarkPhp.Text
