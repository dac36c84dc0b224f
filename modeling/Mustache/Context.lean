import Mustache.Host
import Mustache.Program
/-!
# Mustache — the context

A template is rendered against a stack of values, its frames: each
section puts one on top. Names are looked up from the top frame down.
Beside the frames there is a stack of overrides, one table for each
parent tag that is being rendered.
-/

namespace Mustache

/-- An override: a body filed under a key of the program that has it. -/
structure BlockRef where
  program : Program
  key : String

/-- What templates are rendered against. Both stacks have their top
first. -/
structure Context where
  frames : List Value
  overrides : List (Entries BlockRef)
  /-- Whether a name that holds null is passed over, so that a lower frame
  may have it. -/
  skipNull : Bool

namespace Context

/-- The context with nothing in it. -/
def empty (skipNull : Bool) : Context := ⟨[], [], skipNull⟩

def push (c : Context) (value : Value) : Context := { c with frames := value :: c.frames }

def pop (c : Context) : Context := { c with frames := c.frames.tail }

/-- The top frame. -/
def top? (c : Context) : Option Value := c.frames.head?

def pushOverrides (c : Context) (table : Entries BlockRef) : Context :=
  { c with overrides := table :: c.overrides }

def popOverrides (c : Context) : Context := { c with overrides := c.overrides.tail }

/-- The override of a block. The table put first wins: it comes from the
template that extends all the others. -/
def override? (c : Context) (name : String) : Option BlockRef :=
  c.overrides.reverse.findSome? fun table => Entries.get? table name

/-- What a name stands for in the first of some frames that has it. -/
def findIn (host : Host) (skipNull : Bool) (name : String) : List Value → Except Error Value
  | [] => .ok .missing
  | frame :: frames => do
    match ← frame.lookup host name skipNull with
    | some value => return value
    | none => findIn host skipNull name frames

/-- What a name stands for. -/
def find (host : Host) (c : Context) (name : String) : Except Error Value :=
  findIn host c.skipNull name c.frames

/-- Follow names inside a value. Where one leads nowhere the way ends. -/
def descend (host : Host) (skipNull : Bool) : Value → List String → Except Error Value
  | value, [] => .ok value
  | value, name :: names =>
    if value.isMissing then .ok value
    else do
      let found ← value.lookup host name skipNull
      descend host skipNull (found.getD .missing) names

/-- The names between the dots of a dotted name. -/
def namesOf (id : String) : List String :=
  (Text.splitWhere (· = '.') id.toList).map String.ofList

/-- What a dotted name stands for: the first name is looked up in every
frame, the others inside what was found. -/
def findDotted (host : Host) (c : Context) (id : String) : Except Error Value :=
  match namesOf id with
  | [] => c.find host ""
  | name :: names => do descend host c.skipNull (← c.find host name) names

/-- What a name with a leading dot stands for inside the top frame. -/
def findAnchored (host : Host) (c : Context) (id : String) : Except Error Value :=
  match namesOf id with
  | "" :: names =>
    match c.top? with
    | some value => descend host c.skipNull value names
    | none => .ok .missing
  | _ => .error (.invalidArgument (.anchoredName id))

/-- What a tag looks up. -/
def resolve (host : Host) (c : Context) : Lookup → Except Error Value
  | .top => .ok (c.top?.getD .null)
  | .find id => c.find host id
  | .findDotted id => c.findDotted host id
  | .findAnchored id => c.findAnchored host id

end Context

end Mustache
