/-! # Sets of code points

A property of characters is given by the ranges of code points that have it.
`CodePoints.contains` looks a character up. -/

namespace ExprLang

/-- A set of code points, as ranges that hold their ends. -/
structure CodePoints where
  ranges : Array (Nat × Nat)

namespace CodePoints

/-- The code point of `c` lies in one of the ranges. -/
def contains (s : CodePoints) (c : Char) : Bool :=
  s.ranges.any fun (first, last) => first ≤ c.toNat && c.toNat ≤ last

end CodePoints

end ExprLang
