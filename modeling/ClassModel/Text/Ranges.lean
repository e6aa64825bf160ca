namespace ClassModel

/-- A set of code points: the first and the last member of each of its ranges. -/
abbrev Ranges := List (Nat × Nat)

def Ranges.has (r : Ranges) (n : Nat) : Bool :=
  r.any fun p ↦ p.1 ≤ n && n ≤ p.2

theorem Ranges.has_iff {r : Ranges} {n : Nat} :
    r.has n = true ↔ ∃ p ∈ r, p.1 ≤ n ∧ n ≤ p.2 := by
  simp [Ranges.has]

end ClassModel
