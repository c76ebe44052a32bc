/-!
Sets of characters given by ranges of their numbers, both ends included.
-/

namespace GraphRequest.Text

def isWithin (ranges : List (Nat × Nat)) (c : Char) : Bool :=
  ranges.any fun range => range.1 ≤ c.toNat && c.toNat ≤ range.2

end GraphRequest.Text
