import Mustache.Error
import Mustache.Value
/-!
# Mustache — helpers

An engine has values of its own, by name, that every template can use
unless the data has the same name.
-/

namespace Mustache

/-- The helpers of an engine, in the order in which they were added. -/
abbrev Helpers := Entries Value

namespace Helpers

/-- The helper of a name. -/
def find (helpers : Helpers) (name : String) : Except Error Value :=
  match Entries.get? helpers name with
  | some value => .ok value
  | none => .error (.unknownHelper name)

/-- The helper of a name, and the helpers without it. -/
def remove (helpers : Helpers) (name : String) : Except Error (Value × Helpers) :=
  (find helpers name).map fun value => (value, Entries.erase helpers name)

/-- The helpers as a frame of the context. -/
def frame (helpers : Helpers) : Value := .helpers helpers

end Helpers

end Mustache
