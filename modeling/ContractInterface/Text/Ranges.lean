/-!
# Sets of code points

A property of characters is kept as the closed intervals of code points that have it.
-/

namespace ContractInterface.Text

/-- Closed intervals of code points, in increasing order. -/
abbrev Ranges := List (Nat × Nat)

/-- The code point `n` lies in one of the intervals. -/
def Ranges.has (r : Ranges) (n : Nat) : Bool :=
  r.any fun (lo, hi) => decide (lo ≤ n) && decide (n ≤ hi)

theorem Ranges.has_iff (r : Ranges) (n : Nat) :
    r.has n = true ↔ ∃ p ∈ r, p.1 ≤ n ∧ n ≤ p.2 := by
  simp [Ranges.has]

end ContractInterface.Text
