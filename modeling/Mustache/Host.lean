import Mustache.Error
import Mustache.Value
/-!
# Mustache — the host

The program that renders can hand in objects and procedures. What they do
is up to it: a `Host` answers for each reference, and nothing here
depends on how.

A procedure that stands in a section is given the unrendered text of the
section, and may have texts rendered against the context of that place
before it is done. What it does is an `Action`: a text to be rendered, and
what to do with the result, until there is a value.
-/

namespace Mustache

/-- What a procedure in a section does. -/
inductive Action where
  /-- It is done, with a value or an error. -/
  | done (result : Except Error Value)
  /-- It has a text rendered that starts under the given delimiters, and
  goes on with what comes of it. -/
  | render (delimiters : Option Delimiters) (text : String) (next : Except Error String → Action)

/-- What a section gives to a procedure: the delimiters that the section
is written with, unless they are standard. -/
structure SectionHelper where
  delimiters : Option Delimiters
  deriving DecidableEq, Repr

namespace SectionHelper

/-- The same place, with other delimiters. -/
def withDelimiters (_ : SectionHelper) (d : Delimiters) : SectionHelper :=
  ⟨Delimiters.unlessStandard (some d)⟩

/-- Have a text rendered with the delimiters of the helper. -/
def render (helper : SectionHelper) (text : String) (next : Except Error String → Action) :
    Action :=
  .render helper.delimiters text next

end SectionHelper

/-- A property of an object. -/
inductive Property where
  | undefined
  | visible (value : Value)
  /-- It is there, but not for templates. -/
  | hidden

/-- What an object of the host can do. Everything is optional. -/
structure HostObject where
  /-- The procedure behind a method. -/
  method : String → Option Nat
  property : String → Property
  /-- What stands under a key. -/
  offset : String → Option Value
  /-- The procedure that the object itself is. -/
  invoke : Option Nat
  /-- What a section runs through. -/
  iter : Option (List Value)
  /-- The text a variable writes. -/
  display : Option String

namespace HostObject

/-- An object that can do nothing. -/
def inert : HostObject :=
  ⟨fun _ => none, fun _ => .undefined, fun _ => none, none, none, none⟩

end HostObject

/-- What the references in values stand for. -/
structure Host where
  object : Nat → HostObject
  /-- Call a procedure outside a section. -/
  call : Nat → List Value → Except Error Value
  /-- Call a procedure in a section. -/
  callInSection : Nat → SectionHelper → List Value → Action

namespace Host

/-- A host whose objects can do nothing and whose procedures give null. -/
def inert : Host := ⟨fun _ => .inert, fun _ _ => .ok .null, fun _ _ _ => .done (.ok .null)⟩

end Host

namespace Value

/-- The text that a variable writes for a value. -/
def text (host : Host) : Value → String
  | .null => ""
  | .bool b => if b then "1" else ""
  | .int n => toString n
  | .float x => DecimalStyle.plain.text x
  | .str s => s
  | .object ref => (host.object ref).display.getD ""
  | .list _ | .map _ | .lambda _ | .helpers _ => ""

/-- The position in a list that a key names: decimal digits, with a plus
sign before them or without. -/
def positionOf? (key : String) : Option Nat :=
  let digits := match key.toList with
    | '+' :: r => r
    | cs => cs
  if digits.isEmpty || !digits.all Char.isDigit then none
  else some (Binary64.natOfDigits digits)

/-- A value found, unless it is null and null counts as nothing. -/
def keep (skipNull : Bool) (found : Option Value) : Option Value :=
  found.filter fun v => !(skipNull && v.isNull)

/-- What stands under a key inside an object: what its method gives, null
included; else its property; else what stands under the key, where null
is nothing. A hidden property is passed over. -/
def lookupObject (host : Host) (o : HostObject) (key : String) (skipNull : Bool) :
    Except Error (Option Value) :=
  match o.method key with
  | some ref => (host.call ref []).map some
  | none =>
    let offset := keep true (o.offset key)
    match o.property key with
    | .visible v => .ok ((keep skipNull (some v)).or offset)
    | .hidden | .undefined => .ok offset

/-- What stands under a key inside a value. With `skipNull`, null counts as
nothing. -/
def lookup (host : Host) (value : Value) (key : String) (skipNull : Bool) :
    Except Error (Option Value) :=
  match value with
  | .map entries => .ok (keep skipNull (Entries.get? entries key))
  | .helpers entries => .ok (keep skipNull (Entries.get? entries key))
  | .list items => .ok (keep skipNull ((positionOf? key).bind fun i => items[i]?))
  | .object ref => lookupObject host (host.object ref) key skipNull
  | _ => .ok none

/-- What a section runs through, if a value is of that kind. -/
def elements? (host : Host) : Value → Option (List Value)
  | .list items => some items
  | .object ref => (host.object ref).iter
  | _ => none

/-- The procedure that a value is. Unless callables are strict, an object
together with the name of a method is one. -/
def callable? (host : Host) (strict : Bool) : Value → Option Nat
  | .lambda ref => some ref
  | .object ref => (host.object ref).invoke
  | .list [.object ref, .str name] => if strict then none else (host.object ref).method name
  | _ => none

end Value

end Mustache
