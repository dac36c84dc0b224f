import Mustache.Number.Binary64
/-!
# Mustache — decimal text of numbers

Writing: a finite number is written with the fewest digits that read
back as the same number, and of those with the digits nearest to it.
`Decimal.shortest` finds them; a `DecimalStyle` says how they are laid
out. Reading: `Binary64.ofText?` rounds the exact decimal once.
-/

namespace Mustache

/-- The decimal number `coefficient · 10 ^ exponent`. -/
structure Decimal where
  coefficient : Nat
  exponent : Int
  deriving DecidableEq, Repr

namespace Decimal

/-- The number of decimal digits of a positive number. -/
def digitCount (n : Nat) : Nat := (Nat.toDigits 10 n).length

/-- A power of ten as a quotient. -/
def tenTo (e : Int) : Nat × Nat := (Nat.pow 10 e.toNat, Nat.pow 10 (-e).toNat)

/-- The real numbers that round to a given one: the number itself and the
two ends of the interval around it, over one denominator, and whether
the ends belong to it. -/
structure Neighbourhood where
  low : Nat
  middle : Nat
  high : Nat
  denominator : Nat
  closed : Bool

/-- The neighbourhood of the finite positive number `m · 2 ^ e`: half way
to the number below, which is nearer where the exponent changes, and
half way to the number above. -/
def neighbourhood (m : Nat) (e : Int) : Neighbourhood :=
  let narrow := m = 0x10000000000000 ∧ e > FloatFormat.double.minExponent
  let scale := Nat.pow 2 (e - 2).toNat
  { low := (4 * m - if narrow then 1 else 2) * scale
    middle := 4 * m * scale
    high := (4 * m + 2) * scale
    denominator := Nat.pow 2 (2 - e).toNat
    closed := m % 2 = 0 }

/-- Whether `c · 10 ^ e` lies in a neighbourhood. -/
def Neighbourhood.contains (n : Neighbourhood) (c : Nat) (e : Int) : Bool :=
  let num := c * (tenTo e).1 * n.denominator
  let den := (tenTo e).2
  if n.closed then n.low * den ≤ num && num ≤ n.high * den
  else n.low * den < num && num < n.high * den

/-- The multiple of `10 ^ e` in the neighbourhood that is nearest to its
middle, of two equally near ones the greater. -/
def Neighbourhood.onGrid? (n : Neighbourhood) (e : Int) : Option Nat :=
  let num := n.middle * (tenTo e).2
  let den := n.denominator * (tenTo e).1
  let below := num / den
  match n.contains below e, n.contains (below + 1) e with
  | true, true => if 2 * (num % den) < den then some below else some (below + 1)
  | true, false => some below
  | false, true => some (below + 1)
  | false, false => none

/-- The greatest `k` with `10 ^ (k - 1)` not above a positive quotient. -/
def decimalPlaces (num den : Nat) : Int :=
  let guess : Int := (digitCount num : Int) - (digitCount den : Int)
  -- the quotient lies between `10 ^ (guess - 1)` and `10 ^ (guess + 1)`
  if num * (tenTo guess).2 ≥ den * (tenTo guess).1 then guess + 1 else guess

/-- Try grids of one digit, two digits, and so on. -/
def search (n : Neighbourhood) (places : Int) : List Nat → Decimal
  | [] => ⟨n.middle / n.denominator, 0⟩
  | digits :: more =>
    let e := places - digits
    match n.onGrid? e with
    | some c => ⟨c, e⟩
    | none => search n places more

/-- The shortest decimal that reads back as the finite positive number
`m · 2 ^ e`; seventeen digits are always enough. -/
def shortest (m : Nat) (e : Int) : Decimal :=
  let n := neighbourhood m e
  search n (decimalPlaces n.middle n.denominator) (List.range' 1 17)

/-- The digits of the coefficient without trailing zeros, and the power
of ten that the last of them stands for. -/
def significant (d : Decimal) : List Char × Int :=
  let digits := Nat.toDigits 10 d.coefficient
  let kept := (digits.reverse.dropWhile (· = '0')).reverse
  (kept, d.exponent + ((digits.length : Int) - (kept.length : Int)))

end Decimal

/-- How the digits of a number are laid out. -/
structure DecimalStyle where
  /-- Whether a number without a fraction still shows `.0`. -/
  showPoint : Bool
  /-- Whether a number with its leading digit at this power of ten is
  written with an exponent. -/
  scientific : Int → Bool

namespace DecimalStyle

/-- Digits with the point after the first `whole` of them. -/
def positional (style : DecimalStyle) (digits : List Char) (exponent : Int) : List Char :=
  let zeros (n : Nat) := List.replicate n '0'
  if exponent ≥ 0 then
    digits ++ zeros exponent.toNat ++ (if style.showPoint then ['.', '0'] else [])
  else
    let places := (-exponent).toNat
    if digits.length > places then
      digits.take (digits.length - places) ++ '.' :: digits.drop (digits.length - places)
    else '0' :: '.' :: zeros (places - digits.length) ++ digits

/-- The first digit, the others after a point, and the exponent. -/
def exponential (digits : List Char) (exponent : Int) : List Char :=
  digits.take 1 ++ (if digits.length > 1 then '.' :: digits.drop 1 else [])
    ++ 'e' :: (toString exponent).toList

/-- The text of a number. -/
def text (style : DecimalStyle) (x : Binary64) : String :=
  let sign := if x.negative then ['-'] else []
  if x.isNan then "NaN"
  else
    match FloatFormat.double.finite? x.magnitude with
    | none => String.ofList (sign ++ "inf".toList)
    | some (m, e) =>
      if m = 0 then String.ofList (sign ++ style.positional ['0'] 0)
      else
        let (digits, exponent) := (Decimal.shortest m e).significant
        let leading := exponent + (digits.length : Int) - 1
        String.ofList <| sign ++
          if style.scientific leading then exponential digits leading
          else style.positional digits exponent

/-- Never an exponent, and no point without a fraction. -/
def plain : DecimalStyle := ⟨false, fun _ => false⟩

/-- Always a point or an exponent, so that the text shows a number that
need not be an integer: an exponent from `10 ^ 16` on and below
`10 ^ -4`. -/
def exact : DecimalStyle := ⟨true, fun leading => leading ≥ 16 || leading < -4⟩

end DecimalStyle

/-! ## Reading -/

namespace Binary64

/-- A run of decimal digits and what follows it. -/
def digitsOf (cs : List Char) : List Char × List Char := cs.span Char.isDigit

/-- The natural number written by decimal digits. -/
def natOfDigits (ds : List Char) : Nat :=
  ds.foldl (fun n d => 10 * n + (d.toNat - '0'.toNat)) 0

/-- The magnitude bits, in a format, of the number `n · 10 ^ e`. Where the
decimal is far beyond the format's range the answer is known without the
power. -/
def magnitudeOfDecimal (format : FloatFormat) (n : Nat) (e : Int) : Nat :=
  let reach := e + (Decimal.digitCount n : Int)
  if n = 0 then 0
  else if reach > 400 then format.infinity
  else if reach < -400 then 0
  else format.nearest (n * (Decimal.tenTo e).1) (Decimal.tenTo e).2

/-- An optional sign: whether it is a minus, and what follows. -/
def signOf : List Char → Bool × List Char
  | '-' :: r => (true, r)
  | '+' :: r => (false, r)
  | r => (false, r)

theorem signOf_length (cs : List Char) : (signOf cs).2.length ≤ cs.length := by
  unfold signOf
  split <;> simp

/-- The exponent part of a decimal: absent, or a mark, an optional sign
and at least one digit. -/
def exponentOf? : List Char → Option Int
  | [] => some 0
  | c :: r =>
    if c = 'e' || c = 'E' then
      let (minus, r) := signOf r
      let (ds, rest) := digitsOf r
      if ds.isEmpty || !rest.isEmpty then none
      else some (if minus then -(natOfDigits ds : Int) else natOfDigits ds)
    else none

/-- The sign and the magnitude bits, in a format, that a text denotes:
digits with an optional point and exponent, or a word for infinity or
for what is not a number, in either case. -/
def magnitudeOfText? (format : FloatFormat) (text : String) : Option (Bool × Nat) :=
  let (minus, cs) := signOf text.toList
  let word := String.ofList (cs.map Char.toLower)
  if word = "inf" || word = "infinity" then some (minus, format.infinity)
  else if word = "nan" then some (minus, format.infinity + Nat.pow 2 (format.precision - 2))
  else
    let (whole, r) := digitsOf cs
    let (fraction, r) := match r with
      | '.' :: r => digitsOf r
      | r => ([], r)
    if whole.isEmpty && fraction.isEmpty then none
    else
      (exponentOf? r).map fun e =>
        (minus, magnitudeOfDecimal format (natOfDigits (whole ++ fraction)) (e - fraction.length))

/-- The number nearest to the decimal that a text denotes. -/
def ofText? (text : String) : Option Binary64 :=
  (magnitudeOfText? .double text).map fun p => ofMagnitude p.1 p.2

/-- The number that the 32-bit number nearest to the decimal in a text
is. -/
def ofSingleText? (text : String) : Option Binary64 :=
  (magnitudeOfText? .single text).map fun p => ofSingle p.1 p.2

end Binary64

end Mustache
