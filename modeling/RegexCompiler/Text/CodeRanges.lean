/-!
# Tables of code points

A property of characters is a list of inclusive ranges of code points, in ascending order.
-/

namespace RegexCompiler.Text

/-- Inclusive ranges of code points: first and last member. -/
abbrev CodeRanges := List (Nat × Nat)

/-- Whether a character lies in one of the ranges. -/
def CodeRanges.contains (ranges : CodeRanges) (c : Char) : Bool :=
  ranges.any fun (first, last) => first ≤ c.toNat && c.toNat ≤ last

end RegexCompiler.Text
