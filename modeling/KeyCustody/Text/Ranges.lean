/-!
# Sets of characters

The tables of Unicode properties are lists of ranges of code points, ends
included.  The members of a table are found by `Ranges.contains`.
-/

namespace KeyCustody.Text

/-- A set of code points as a list of ranges, both ends included. -/
abbrev Ranges := List (Nat × Nat)

/-- Whether the code point of the character lies in one of the ranges. -/
def Ranges.contains (r : Ranges) (c : Char) : Bool :=
  r.any fun p => p.1 ≤ c.toNat && c.toNat ≤ p.2

theorem Ranges.contains_iff {r : Ranges} {c : Char} :
    r.contains c = true ↔ ∃ p ∈ r, p.1 ≤ c.toNat ∧ c.toNat ≤ p.2 := by
  simp [Ranges.contains]

end KeyCustody.Text
