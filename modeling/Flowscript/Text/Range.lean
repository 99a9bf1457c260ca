/-
  Flowscript.Text.Range

  Character classes given by ranges of code points.
-/

namespace Flowscript.Text

/-- The character's code point lies in one of the ranges, both ends included. -/
def inRanges (ranges : List (Nat × Nat)) (c : Char) : Bool :=
  ranges.any fun r => r.1 ≤ c.toNat && c.toNat ≤ r.2

@[simp] theorem inRanges_nil (c : Char) : inRanges [] c = false := rfl

end Flowscript.Text
