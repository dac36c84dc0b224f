import Mustache.Json
/-!
# Mustache — the lexemes of JSON

The text of a document is cut into brackets, commas, colons, strings,
numbers and words. A string or a number can be well written and still have
no value: a string in which half of a pair of surrogates stands alone, a
number that is too large. That is noted here and judged later, since not
every part of a document is looked at.

Floating-point numbers are read the fast way: the digits that fit 64 bits
are taken as one integer, which is then multiplied or divided by a power
of ten. Both steps round, so that the result need not be the nearest
number to a long decimal.
-/

namespace Mustache

namespace Json

/-- The parts a document is made of. -/
inductive Lexeme where
  | openArray
  | closeArray
  | openObject
  | closeObject
  | comma
  | colon
  /-- A string with its text, if it has one. -/
  | string (text : Option String)
  /-- A number or a word with its value, if it has one. -/
  | scalar (value : Option Json)

/-! ## Strings -/

/-- The value of a hexadecimal digit. -/
def hexValue? (c : Char) : Option Nat :=
  if '0' ≤ c ∧ c ≤ '9' then some (c.toNat - '0'.toNat)
  else if 'a' ≤ c ∧ c ≤ 'f' then some (c.toNat - 'a'.toNat + 10)
  else if 'A' ≤ c ∧ c ≤ 'F' then some (c.toNat - 'A'.toNat + 10)
  else none

/-- The number that four hexadecimal digits write, and what follows. -/
def hexFour? : List Char → Option (Nat × List Char)
  | a :: b :: c :: d :: r => do
    let a ← hexValue? a
    let b ← hexValue? b
    let c ← hexValue? c
    let d ← hexValue? d
    some (((a * 16 + b) * 16 + c) * 16 + d, r)
  | _ => none

/-- The code point of an escape, after its backslash. An escape in
hexadecimal may stand for half of a pair of surrogates. -/
def escape? : List Char → Option (Nat × List Char)
  | '"' :: r => some ('"'.toNat, r)
  | '\\' :: r => some ('\\'.toNat, r)
  | '/' :: r => some ('/'.toNat, r)
  | 'b' :: r => some (0x08, r)
  | 'f' :: r => some (0x0C, r)
  | 'n' :: r => some ('\n'.toNat, r)
  | 'r' :: r => some ('\r'.toNat, r)
  | 't' :: r => some ('\t'.toNat, r)
  | 'u' :: r => hexFour? r
  | _ => none

/-- The first half of a pair of surrogates. -/
def isFirstHalf (n : Nat) : Bool := 0xD800 ≤ n && n ≤ 0xDBFF

/-- The second half of a pair of surrogates. -/
def isSecondHalf (n : Nat) : Bool := 0xDC00 ≤ n && n ≤ 0xDFFF

/-- The character that a pair of surrogates stands for. -/
def ofHalves (first second : Nat) : Char :=
  Char.ofNat (0x10000 + (first - 0xD800) * 0x400 + (second - 0xDC00))

/-- The characters that code points stand for, the last one first, before
characters that are known. A half of a pair must stand with the other
half. -/
def joined? (known : List Char) : (back : List Nat) → Option (List Char)
  | [] => some known
  | n :: back =>
    if isSecondHalf n then
      match back with
      | m :: back => if isFirstHalf m then joined? (ofHalves m n :: known) back else none
      | [] => none
    else if isFirstHalf n then none
    else joined? (Char.ofNat n :: known) back

theorem hexFour?_length {cs r : List Char} {n : Nat} (h : hexFour? cs = some (n, r)) :
    r.length ≤ cs.length := by
  unfold hexFour? at h
  split at h
  · simp only [Option.bind_eq_bind, Option.bind_eq_some_iff, Option.some.injEq] at h
    obtain ⟨_, _, _, _, _, _, _, _, h⟩ := h
    cases h
    simp only [List.length_cons]
    omega
  · cases h

/-- An escape is followed by no more than what it is read from. -/
theorem escape?_length {cs r : List Char} {n : Nat} (h : escape? cs = some (n, r)) :
    r.length ≤ cs.length := by
  unfold escape? at h
  split at h
  case h_9 => exact Nat.le_trans (hexFour?_length h) (by simp)
  all_goals cases h
  all_goals simp

/-- The rest of a string, up to its closing quote, after the code points
read so far: its text, if no half of a pair stands alone, and what
follows. -/
def stringBody? (back : List Nat) (cs : List Char) : Option (Option String × List Char) :=
  match cs with
  | [] => none
  | c :: r =>
    if c = '"' then some ((joined? [] back).map String.ofList, r)
    else if c = '\\' then
      match _h : escape? r with
      | some (n, rest) => stringBody? (n :: back) rest
      | none => none
    else if c.toNat < 0x20 then none
    else stringBody? (c.toNat :: back) r
termination_by cs.length
decreasing_by
  · have := escape?_length _h
    simp only [List.length_cons]
    omega
  · simp

/-! ## Numbers -/

/-- The greatest natural number of 64 bits. -/
def wordLimit : Nat := 0xffffffffffffffff

/-- Take digits into a number while it stays within 64 bits: the number,
how many digits were taken, and what follows. -/
def takeDigits : (number taken : Nat) → List Char → Nat × Nat × List Char
  | number, taken, [] => (number, taken, [])
  | number, taken, c :: r =>
    if c.isDigit ∧ number * 10 + (c.toNat - '0'.toNat) ≤ wordLimit then
      takeDigits (number * 10 + (c.toNat - '0'.toNat)) (taken + 1) r
    else (number, taken, c :: r)

/-- `significand · 10 ^ exponent`, each step rounded: divided by
`10 ^ 308` as often as needed, then multiplied or divided by one more
power. None when the number is too large. -/
def scale? (x : Binary64) (exponent : Int) : Option Binary64 :=
  let power (n : Nat) : Binary64 := Binary64.ofRatio false (Nat.pow 10 n) 1
  if exponent ≥ 0 then
    if exponent > 308 then (if x.isZero then some x else none)
    else
      let y := x.mul (power exponent.toNat)
      if y.isInfinite then none else some y
  else
    let down := (-exponent).toNat
    -- three divisions by `10 ^ 308` leave nothing of any significand
    let steps := min ((down - 1) / 308) 3
    let x := (List.range steps).foldl (fun x _ => x.div (power 308)) x
    let left := down - 308 * steps
    if x.isZero then some x else some (x.div (power (min left 308)))

/-- The exponent after its mark: an optional sign and at least one digit. -/
def exponentPart? (cs : List Char) : Option (Int × List Char) :=
  let signed := Binary64.signOf cs
  let digits := signed.2.takeWhile Char.isDigit
  if digits.isEmpty then none
  else
    let size : Int := Binary64.natOfDigits digits
    some (if signed.1 then -size else size, signed.2.dropWhile Char.isDigit)

/-- A floating-point number from its significand, the power of ten that
stands for so far, and what follows its digits. There is no value if it is
too large. -/
def floatTail? (significand : Nat) (exponent : Int) (cs : List Char) :
    Option (Option Binary64 × List Char) :=
  match cs with
  | c :: r =>
    if c = 'e' || c = 'E' then do
      let (e, rest) ← exponentPart? r
      some (scale? (Binary64.ofNat significand) (exponent + e), rest)
    else some (scale? (Binary64.ofNat significand) exponent, c :: r)
  | [] => some (scale? (Binary64.ofNat significand) exponent, [])

/-- The digits after a point; there must be one. -/
def fraction? (significand : Nat) (exponent : Int) (cs : List Char) :
    Option (Option Binary64 × List Char) :=
  if cs.head?.any Char.isDigit then
    let taken := takeDigits significand 0 cs
    floatTail? taken.1 (exponent - taken.2.1) (taken.2.2.dropWhile Char.isDigit)
  else none

/-- A number without its sign, from its first digit and what follows: its
value, if it is not too large, and what follows it. -/
def number? (minus : Bool) (first : Char) (cs : List Char) : Option (Option Json × List Char) :=
  let taken := takeDigits (first.toNat - '0'.toNat) 1 cs
  let significand := taken.1
  let more := taken.2.2.takeWhile Char.isDigit
  let rest := taken.2.2.dropWhile Char.isDigit
  let signed (x : Binary64) : Json := .float (if minus then x.neg else x)
  if !first.isDigit || (first = '0' && cs.head?.any Char.isDigit) then none
  else
    match rest with
    | '.' :: r => (fraction? significand more.length r).map fun p => (p.1.map signed, p.2)
    | _ =>
      if !more.isEmpty || rest.head?.any fun c => c = 'e' || c = 'E' then
        (floatTail? significand more.length rest).map fun p => (p.1.map signed, p.2)
      else if !minus then some (some (.int significand), rest)
      else if significand = 0 ∨ significand > 0x8000000000000000 then
        some (some (signed (Binary64.ofNat significand)), rest)
      else some (some (.int (-(significand : Int))), rest)

theorem takeDigits_length (number taken : Nat) (cs : List Char) :
    (takeDigits number taken cs).2.2.length ≤ cs.length := by
  induction cs generalizing number taken with
  | nil => simp [takeDigits]
  | cons c r ih =>
    rw [takeDigits]
    split
    · exact Nat.le_succ_of_le (ih _ _)
    · exact Nat.le_refl _

theorem dropWhile_length (p : Char → Bool) (cs : List Char) :
    (cs.dropWhile p).length ≤ cs.length :=
  (List.dropWhile_sublist p).length_le

theorem exponentPart?_length {cs r : List Char} {n : Int} (h : exponentPart? cs = some (n, r)) :
    r.length ≤ cs.length := by
  simp only [exponentPart?] at h
  split at h
  · cases h
  · obtain ⟨-, rfl⟩ := Prod.mk.inj (Option.some.inj h)
    exact Nat.le_trans (dropWhile_length _ _) (Binary64.signOf_length cs)

theorem floatTail?_length {n : Nat} {e : Int} {cs r : List Char} {x : Option Binary64}
    (h : floatTail? n e cs = some (x, r)) : r.length ≤ cs.length := by
  unfold floatTail? at h
  split at h
  · split at h
    · simp only [Option.bind_eq_bind, Option.bind_eq_some_iff] at h
      obtain ⟨⟨_, rest⟩, hexp, h⟩ := h
      obtain ⟨-, rfl⟩ := Prod.mk.inj (Option.some.inj h)
      exact Nat.le_succ_of_le (exponentPart?_length hexp)
    · obtain ⟨-, rfl⟩ := Prod.mk.inj (Option.some.inj h)
      exact Nat.le_refl _
  · obtain ⟨-, rfl⟩ := Prod.mk.inj (Option.some.inj h)
    exact Nat.le_refl _

theorem fraction?_length {n : Nat} {e : Int} {cs r : List Char} {x : Option Binary64}
    (h : fraction? n e cs = some (x, r)) : r.length ≤ cs.length := by
  simp only [fraction?] at h
  split at h
  · exact Nat.le_trans (floatTail?_length h)
      (Nat.le_trans (dropWhile_length _ _) (takeDigits_length _ _ _))
  · cases h

/-- A number is followed by no more than what follows its first digit. -/
theorem number?_length {minus : Bool} {first : Char} {cs r : List Char} {value : Option Json}
    (h : number? minus first cs = some (value, r)) : r.length ≤ cs.length := by
  have hrest := Nat.le_trans
    (dropWhile_length Char.isDigit (takeDigits (first.toNat - '0'.toNat) 1 cs).2.2)
    (takeDigits_length (first.toNat - '0'.toNat) 1 cs)
  simp only [number?] at h
  split at h
  · cases h
  · split at h
    · next after hafter =>
      obtain ⟨p, hp, h⟩ := Option.map_eq_some_iff.1 h
      obtain ⟨-, rfl⟩ := Prod.mk.inj h
      rw [hafter, List.length_cons] at hrest
      exact Nat.le_trans (fraction?_length hp) (Nat.le_of_succ_le hrest)
    · split at h
      · obtain ⟨p, hp, h⟩ := Option.map_eq_some_iff.1 h
        obtain ⟨-, rfl⟩ := Prod.mk.inj h
        exact Nat.le_trans (floatTail?_length hp) hrest
      · split at h
        · obtain ⟨-, rfl⟩ := Prod.mk.inj (Option.some.inj h)
          exact hrest
        · split at h
          · obtain ⟨-, rfl⟩ := Prod.mk.inj (Option.some.inj h)
            exact hrest
          · obtain ⟨-, rfl⟩ := Prod.mk.inj (Option.some.inj h)
            exact hrest

/-! ## Lexemes -/

/-- The white space that may stand between lexemes. -/
def isGap (c : Char) : Bool := c = ' ' || c = '\n' || c = '\t' || c = '\r'

/-- A word of the language, after its first letter. -/
def keyword? (letters : String) (value : Json) (cs : List Char) : Option (Lexeme × List Char) :=
  if letters.toList.isPrefixOf cs then some (.scalar (some value), cs.drop letters.length)
  else none

/-- A number that was read, as a lexeme. -/
def asScalar : Option (Option Json × List Char) → Option (Lexeme × List Char) :=
  Option.map fun p => (.scalar p.1, p.2)

/-- The lexeme that a character is by itself. -/
def punctuation? (c : Char) : Option Lexeme :=
  if c = '[' then some .openArray
  else if c = ']' then some .closeArray
  else if c = '\x7b' then some .openObject
  else if c = '\x7d' then some .closeObject
  else if c = ',' then some .comma
  else if c = ':' then some .colon
  else none

/-- A number after its minus sign. -/
def negative? : List Char → Option (Option Json × List Char)
  | first :: r => number? true first r
  | [] => none

/-- The string, number or word that starts with a character. -/
def scalar? (c : Char) (r : List Char) : Option (Lexeme × List Char) :=
  if c = '"' then (stringBody? [] r).map fun p => (.string p.1, p.2)
  else if c = '-' then asScalar (negative? r)
  else if c = 'n' then keyword? "ull" .null r
  else if c = 't' then keyword? "rue" (.bool true) r
  else if c = 'f' then keyword? "alse" (.bool false) r
  else asScalar (number? false c r)

/-- The lexeme that starts with a character. -/
def lexeme? (c : Char) (r : List Char) : Option (Lexeme × List Char) :=
  match punctuation? c with
  | some lexeme => some (lexeme, r)
  | none => scalar? c r

theorem stringBody?_length {back : List Nat} {cs r : List Char} {s : Option String}
    (h : stringBody? back cs = some (s, r)) : r.length ≤ cs.length := by
  fun_induction stringBody? back cs generalizing s r with
  | case1 => cases h
  | case2 =>
    obtain ⟨-, rfl⟩ := Prod.mk.inj (Option.some.inj h)
    simp
  | case3 back rest n after hesc hq ih =>
    exact Nat.le_succ_of_le (Nat.le_trans (ih h) (escape?_length hesc))
  | case4 => cases h
  | case5 => cases h
  | case6 back c rest _ _ _ ih => exact Nat.le_succ_of_le (ih h)

theorem keyword?_length {letters : String} {value : Json} {lexeme : Lexeme} {cs r : List Char}
    (h : keyword? letters value cs = some (lexeme, r)) : r.length ≤ cs.length := by
  unfold keyword? at h
  split at h
  · obtain ⟨-, rfl⟩ := Prod.mk.inj (Option.some.inj h)
    simp
  · cases h

theorem asScalar_eq_some {found : Option (Option Json × List Char)} {lexeme : Lexeme} {r : List Char}
    (h : asScalar found = some (lexeme, r)) : ∃ value, found = some (value, r) := by
  obtain ⟨⟨value, rest⟩, hfound, h⟩ := Option.map_eq_some_iff.1 h
  obtain ⟨-, rfl⟩ := Prod.mk.inj h
  exact ⟨value, hfound⟩

theorem negative?_length {cs r : List Char} {value : Option Json}
    (h : negative? cs = some (value, r)) : r.length ≤ cs.length := by
  cases cs with
  | nil => cases h
  | cons first cs => exact Nat.le_succ_of_le (number?_length h)

theorem scalar?_length {c : Char} {cs r : List Char} {lexeme : Lexeme}
    (h : scalar? c cs = some (lexeme, r)) : r.length ≤ cs.length := by
  unfold scalar? at h
  split at h
  · obtain ⟨p, hp, h⟩ := Option.map_eq_some_iff.1 h
    obtain ⟨-, rfl⟩ := Prod.mk.inj h
    exact stringBody?_length hp
  · split at h
    · obtain ⟨value, h⟩ := asScalar_eq_some h
      exact negative?_length h
    · split at h
      · exact keyword?_length h
      · split at h
        · exact keyword?_length h
        · split at h
          · exact keyword?_length h
          · obtain ⟨value, h⟩ := asScalar_eq_some h
            exact number?_length h

/-- A lexeme is followed by no more than what follows its first
character. -/
theorem lexeme?_length {c : Char} {cs r : List Char} {lexeme : Lexeme}
    (h : lexeme? c cs = some (lexeme, r)) : r.length ≤ cs.length := by
  unfold lexeme? at h
  split at h
  · obtain ⟨-, rfl⟩ := Prod.mk.inj (Option.some.inj h)
    exact Nat.le_refl _
  · exact scalar?_length h

/-- The lexemes of a text. -/
def lexemes? (cs : List Char) : Option (List Lexeme) :=
  match cs with
  | [] => some []
  | c :: r =>
    if isGap c then lexemes? r
    else
      match _h : lexeme? c r with
      | none => none
      | some (lexeme, rest) => (lexemes? rest).map (lexeme :: ·)
termination_by cs.length
decreasing_by
  · simp
  · exact Nat.lt_succ_of_le (lexeme?_length _h)

end Json

end Mustache
