/-! Membership in a table of code point ranges. -/

namespace HeaderBindings.Text.Table

/-- Whether the code point of `c` lies in one of the ranges, ends included. -/
def covers (ranges : List (Nat × Nat)) (c : Char) : Bool :=
  ranges.any fun range => range.1 ≤ c.toNat && c.toNat ≤ range.2

end HeaderBindings.Text.Table
