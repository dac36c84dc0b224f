/-!
# Mustache — binary floating point

Floating-point data is kept as its 64 bits and computed with in exact
arithmetic on natural numbers. A finite number is `± m · 2 ^ e`; every
operation here takes an exact quotient and rounds it once, to the
nearest representable number and, half way, to the even one.
-/

namespace Mustache

/-- A binary interchange format: the number of bits of a significand and
the exponent of the smallest positive number. -/
structure FloatFormat where
  precision : Nat
  minExponent : Int
  /-- The bit pattern of infinity, above that of every finite number. -/
  infinity : Nat

namespace FloatFormat

/-- The 64-bit format. -/
def double : FloatFormat := ⟨53, -1074, 0x7ff0000000000000⟩

/-- The 32-bit format. -/
def single : FloatFormat := ⟨24, -149, 0x7f800000⟩

/-- A quotient of natural numbers, rounded to the nearest one; a half
goes to the even neighbour. -/
def roundHalfEven (num den : Nat) : Nat :=
  let q := num / den
  let r := num % den
  if 2 * r > den ∨ (2 * r = den ∧ q % 2 = 1) then q + 1 else q

/-- The bit pattern, sign aside, of the number nearest to `num / den`.

The exponent is chosen so that the quotient, divided by that power of
two, has as many bits as a significand holds, or is the smallest one for
numbers too small for that. A significand rounded up to the next power
of two carries into the exponent field, which is the right pattern
again. -/
def nearest (format : FloatFormat) (num den : Nat) : Nat :=
  if num = 0 then 0
  else
    let guess : Int := (num.log2 : Int) - (den.log2 : Int) - (format.precision : Int)
    let scaled (e : Int) : Nat × Nat := (num * Nat.pow 2 (-e).toNat, den * Nat.pow 2 e.toNat)
    let fits (e : Int) : Bool := (scaled e).1 / (scaled e).2 < Nat.pow 2 format.precision
    let exponent := max (if fits guess then guess else guess + 1) format.minExponent
    let significand := roundHalfEven (scaled exponent).1 (scaled exponent).2
    min (significand + (exponent - format.minExponent).toNat * Nat.pow 2 (format.precision - 1))
      format.infinity

/-- The significand and the exponent behind the bit pattern of a finite
number; none for infinity and for what is not a number. -/
def finite? (format : FloatFormat) (magnitude : Nat) : Option (Nat × Int) :=
  if magnitude ≥ format.infinity then none
  else
    let unit := Nat.pow 2 (format.precision - 1)
    let field := magnitude / unit
    if field = 0 then some (magnitude, format.minExponent)
    else some (magnitude % unit + unit, format.minExponent + (field - 1))

end FloatFormat

/-- A 64-bit floating-point number, given by its bits. Equality of this
type is equality of bits; `Binary64.same` is equality of numbers. -/
structure Binary64 where
  bits : UInt64
  deriving DecidableEq, Repr

namespace Binary64

/-- The sign bit. -/
def negative (x : Binary64) : Bool := x.bits.toNat ≥ 0x8000000000000000

/-- The bits without the sign. -/
def magnitude (x : Binary64) : Nat := x.bits.toNat % 0x8000000000000000

/-- The number with the given sign and magnitude bits. -/
def ofMagnitude (negative : Bool) (magnitude : Nat) : Binary64 :=
  ⟨UInt64.ofNat ((if negative then 0x8000000000000000 else 0) + magnitude)⟩

def infinity (negative : Bool) : Binary64 := ofMagnitude negative FloatFormat.double.infinity

/-- What is not a number. -/
def nan : Binary64 := ofMagnitude false 0x7ff8000000000000

def zero : Binary64 := ⟨0⟩

def isNan (x : Binary64) : Bool := x.magnitude > FloatFormat.double.infinity

def isInfinite (x : Binary64) : Bool := x.magnitude = FloatFormat.double.infinity

/-- Either zero. -/
def isZero (x : Binary64) : Bool := x.magnitude = 0

/-- Equality of numbers: the two zeros are the same, and what is not a
number is the same as nothing, itself included. -/
def same (x y : Binary64) : Bool :=
  !x.isNan && !y.isNan && (x == y || (x.isZero && y.isZero))

/-- The number nearest to `± num / den`. -/
def ofRatio (negative : Bool) (num den : Nat) : Binary64 :=
  ofMagnitude negative (FloatFormat.double.nearest num den)

/-- The number nearest to a natural number. -/
def ofNat (n : Nat) : Binary64 := ofRatio false n 1

/-- The same number with the other sign. -/
def neg (x : Binary64) : Binary64 := ofMagnitude (!x.negative) x.magnitude

/-- The quotient that a finite number is, sign aside. -/
def ratio? (x : Binary64) : Option (Nat × Nat) :=
  (FloatFormat.double.finite? x.magnitude).map fun p => (p.1 * Nat.pow 2 p.2.toNat, Nat.pow 2 (-p.2).toNat)

/-- The rounded product of two finite numbers, neither of them negative. -/
def mul (x y : Binary64) : Binary64 :=
  match x.ratio?, y.ratio? with
  | some (a, b), some (c, d) => ofRatio false (a * c) (b * d)
  | _, _ => nan

/-- The rounded quotient of a finite number by a positive one. -/
def div (x y : Binary64) : Binary64 :=
  match x.ratio?, y.ratio? with
  | some (a, b), some (c, d) => ofRatio false (a * d) (b * c)
  | _, _ => nan

/-- The 64-bit number equal to the 32-bit one with these magnitude bits. -/
def ofSingle (negative : Bool) (magnitude : Nat) : Binary64 :=
  match FloatFormat.single.finite? magnitude with
  | some (m, e) => ofRatio negative (m * Nat.pow 2 e.toNat) (Nat.pow 2 (-e).toNat)
  | none =>
    if magnitude = FloatFormat.single.infinity then infinity negative else nan

end Binary64

end Mustache
