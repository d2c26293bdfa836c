/-!
# Range — sets of code points as tables

A Unicode property is stored as a list of closed ranges, or of strided runs where every second
code point belongs to it (the letter pairs of Latin, Greek and Cyrillic).
-/

namespace Adl.Text

/-- Membership in one of the closed ranges. -/
def inRanges (ranges : List (Nat × Nat)) (c : Char) : Bool :=
  ranges.any fun (first, last) => first ≤ c.toNat && c.toNat ≤ last

/-- Membership in one of the runs `first, first + step, …, last`. -/
def inRuns (runs : List (Nat × Nat × Nat)) (c : Char) : Bool :=
  runs.any fun (first, last, step) =>
    first ≤ c.toNat && c.toNat ≤ last && (c.toNat - first) % step == 0

end Adl.Text
