/-!
# Sets of characters

A set is a list of ranges, first and last number of each.
-/

namespace ThreadWatch

abbrev CharSet := List (Nat × Nat)

def CharSet.has (s : CharSet) (c : Char) : Bool := s.any fun (a, b) => a ≤ c.toNat && c.toNat ≤ b

end ThreadWatch
