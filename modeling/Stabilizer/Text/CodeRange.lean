/-!
# Sets of characters as code point ranges

A Unicode property is a table of closed ranges of code points.  `CodeRange.covers` says whether a
character lies in one of them.
-/

namespace Stabilizer.Text

/-- A closed range of code points, first and last. -/
abbrev CodeRange := Nat × Nat

/-- Some range of the table holds the character. -/
def CodeRange.covers (table : List CodeRange) (c : Char) : Bool :=
  table.any fun range => range.1 ≤ c.toNat && c.toNat ≤ range.2

end Stabilizer.Text
