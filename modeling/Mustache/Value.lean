import Mustache.Entries
import Mustache.Number.Decimal
import Mustache.Text.Quoted
/-!
# Mustache — values

The data a template is rendered against. Most of it is plain data; the
program that renders may also hand in objects and procedures of its own,
which are known here by reference only (`Host` says what they do).
-/

namespace Mustache

/-- A value. The names in a map stand in the order in which they were put
there. -/
inductive Value where
  | null
  | bool (value : Bool)
  | int (value : Int)
  | float (value : Binary64)
  | str (text : String)
  | list (items : List Value)
  | map (entries : List (String × Value))
  /-- An object of the host. -/
  | object (ref : Nat)
  /-- A procedure of the host. -/
  | lambda (ref : Nat)
  /-- The helpers of an engine, seen as one object. -/
  | helpers (entries : List (String × Value))

namespace Value

instance : Inhabited Value := ⟨.null⟩

/-- What a name that leads nowhere stands for. -/
def missing : Value := .str ""

def isNull : Value → Bool
  | .null => true
  | _ => false

/-- The empty text, which every name that leads nowhere stands for. -/
def isMissing : Value → Bool
  | .str s => s = ""
  | _ => false

/-- Whether a value skips its sections, and runs its inverted ones. -/
def isEmpty : Value → Bool
  | .null => true
  | .bool b => !b
  | .int n => n = 0
  | .float x => x.isZero
  | .str s => s = "" || s = "0"
  | .list items => items.isEmpty
  | .map entries => entries.isEmpty
  | .object _ | .lambda _ | .helpers _ => false

/-- The text of a value that is text. -/
def asText? : Value → Option String
  | .str s => some s
  | _ => none

/-- An unsigned number: an integer if 64 bits with a sign hold it, else
the nearest floating-point number. -/
def ofUnsigned (n : Nat) : Value :=
  if n < 0x8000000000000000 then .int n else .float (Binary64.ofNat n)

/-! ## Equality

Maps are equal whatever the order of their names. Floating-point numbers
are compared as numbers, so a value need not equal itself. -/

mutual

/-- Whether two values are equal. -/
def same : Value → Value → Bool
  | .null, .null => true
  | .bool a, .bool b => a = b
  | .int a, .int b => a = b
  | .float a, .float b => a.same b
  | .str a, .str b => a = b
  | .list a, .list b => sameItems a b
  | .map a, .map b => a.length = b.length && sameEntries a b
  | .object a, .object b => a = b
  | .lambda a, .lambda b => a = b
  | .helpers a, .helpers b => a.length = b.length && sameEntries a b
  | _, _ => false

/-- Whether lists are equal, value for value. -/
def sameItems : List Value → List Value → Bool
  | [], [] => true
  | a :: as, b :: bs => same a b && sameItems as bs
  | _, _ => false

/-- Whether every entry has an equal one under its name in `other`. -/
def sameEntries : List (String × Value) → Entries Value → Bool
  | [], _ => true
  | (name, value) :: entries, other =>
    (match Entries.get? other name with
      | some found => same value found
      | none => false) && sameEntries entries other

end

/-! ## Text for inspection -/

/-- Texts with a comma and a space between them. -/
def spaced (texts : List String) : String := ", ".intercalate texts

mutual

/-- A value as it is shown to someone who inspects it. -/
def shown : Value → String
  | .null => "Null"
  | .bool b => "Bool(" ++ (if b then "true" else "false") ++ ")"
  | .int n => "Int(" ++ toString n ++ ")"
  | .float x => "Float(" ++ DecimalStyle.exact.text x ++ ")"
  | .str s => "Str(" ++ Text.quote s ++ ")"
  | .list items => "List([" ++ spaced (shownItems items) ++ "])"
  | .map entries => "Map(\x7b" ++ spaced (shownEntries entries) ++ "\x7d)"
  | .object _ | .helpers _ => "Object(..)"
  | .lambda _ => "Lambda(..)"

/-- Each value of a list as it is shown. -/
def shownItems : List Value → List String
  | [] => []
  | value :: values => shown value :: shownItems values

/-- Each entry of a map as it is shown. -/
def shownEntries : List (String × Value) → List String
  | [] => []
  | (name, value) :: entries =>
    (Text.quote name ++ ": " ++ shown value) :: shownEntries entries

end

end Value

end Mustache
