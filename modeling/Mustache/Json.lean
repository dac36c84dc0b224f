import Mustache.Number.Decimal
/-!
# Mustache — JSON

A JSON document keeps the fields of an object in the order in which they
stand, repeated names included; what a repeated name means is decided
where a document is read as something else. The text written here has no
blank between its parts, and escapes in strings only what must be.
-/

namespace Mustache

/-- A JSON document. A number without point and exponent that fits 64
bits, signed or unsigned, is an integer; every other number is floating
point. -/
inductive Json where
  | null
  | bool (value : Bool)
  | int (value : Int)
  | float (value : Binary64)
  | str (text : String)
  | arr (items : List Json)
  | obj (fields : List (String × Json))

instance : Inhabited Json := ⟨.null⟩

namespace Json

/-- A hexadecimal digit, in lower case. -/
def hexDigit (n : Nat) : Char := Nat.digitChar (n % 16)

/-- A character inside a string: quotes, backslashes and control
characters are escaped, the last ones by a letter where they have one. -/
def escapeChar (c : Char) : List Char :=
  if c = '"' then ['\\', '"']
  else if c = '\\' then ['\\', '\\']
  else if c = '\n' then ['\\', 'n']
  else if c = '\r' then ['\\', 'r']
  else if c = '\t' then ['\\', 't']
  else if c = '\x08' then ['\\', 'b']
  else if c = '\x0c' then ['\\', 'f']
  else if c.toNat < 0x20 then ['\\', 'u', '0', '0', hexDigit (c.toNat / 16), hexDigit c.toNat]
  else [c]

/-- A string between its quotes. -/
def quoted (text : String) : String :=
  String.ofList ('"' :: text.toList.flatMap escapeChar ++ ['"'])

/-- Floating-point numbers in a document always show that they are: by a
point, or by an exponent from `10 ^ 16` on and below `10 ^ -5`. -/
def numberStyle : DecimalStyle := ⟨true, fun leading => leading ≥ 16 || leading < -5⟩

/-- Texts with commas between them. -/
def commaSeparated : List String → String
  | [] => ""
  | [s] => s
  | s :: ss => s ++ "," ++ commaSeparated ss

mutual

/-- The text of a document. -/
def text : Json → String
  | .null => "null"
  | .bool b => if b then "true" else "false"
  | .int n => toString n
  | .float x =>
    if x.isNan || x.isInfinite then "null" else numberStyle.text x
  | .str s => quoted s
  | .arr items => "[" ++ commaSeparated (itemTexts items) ++ "]"
  | .obj fields => "\x7b" ++ commaSeparated (fieldTexts fields) ++ "\x7d"

/-- The texts of the items of an array. -/
def itemTexts : List Json → List String
  | [] => []
  | item :: items => text item :: itemTexts items

/-- The texts of the fields of an object. -/
def fieldTexts : List (String × Json) → List String
  | [] => []
  | (name, value) :: fields => (quoted name ++ ":" ++ text value) :: fieldTexts fields

end

/-- The last field of a name. -/
def field? (document : Json) (name : String) : Option Json :=
  match document with
  | .obj fields => (fields.reverse.find? fun f => f.1 = name).map (·.2)
  | _ => none

end Json

end Mustache
