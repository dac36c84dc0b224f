/-!
# Mustache — classes of characters by boundaries

A class of characters is given by the ascending list of the code points
at which it begins and ends by turns: a code point is in the class when
an odd number of boundaries lie at or below it.
-/

namespace Mustache

namespace Text

/-- Membership beyond the boundaries already passed. -/
def insideFrom : (inside : Bool) → List Nat → Nat → Bool
  | inside, [], _ => inside
  | inside, b :: bs, n => if n < b then inside else insideFrom (!inside) bs n

/-- Membership in the class with the given boundaries. -/
def inside (boundaries : List Nat) (c : Char) : Bool := insideFrom false boundaries c.toNat

end Text

end Mustache
