/-! Character classes given by ranges of code points, in increasing order. -/
namespace Assay.Text

def within (ranges : List (Nat × Nat)) (c : Char) : Bool :=
  ranges.any fun r => r.1 ≤ c.toNat && c.toNat ≤ r.2

end Assay.Text
