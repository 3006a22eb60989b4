/-!
# Sets of characters given by ranges of code points

A character property of a standard is a short list of ranges.  `within` decides membership.
-/

namespace FilterEncoding.Chars

/-- Whether the code point of `c` lies in one of the ranges; both ends of a range belong to it. -/
def within (ranges : List (Nat × Nat)) (c : Char) : Bool :=
  ranges.any fun range => range.1 ≤ c.toNat && c.toNat ≤ range.2

theorem within_iff (ranges : List (Nat × Nat)) (c : Char) :
    within ranges c = true ↔ ∃ range ∈ ranges, range.1 ≤ c.toNat ∧ c.toNat ≤ range.2 := by
  simp [within]

end FilterEncoding.Chars
