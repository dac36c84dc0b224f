import Mustache.Entries
import Mustache.Text.Alphanumeric
import Mustache.Text.Search
import Mustache.Text.Blank
/-!
# Mustache — several templates in one text

Templates can stand one after the other in one text, each under a line
`@@ name`. What stands before the first such line is skipped. The text of
a template is what stands between its line and the next, without the
white space around it; a name that comes again takes the later text.
-/

namespace Mustache

namespace Inline

/-- A character that the name of a template may have. -/
def isNameChar (c : Char) : Bool := Text.isAlphanumeric c || c = '_' || c = '.'

/-- A line without the newlines and carriage returns at its end. -/
def bareLine (line : List Char) : List Char :=
  (line.reverse.dropWhile fun c => c = '\n' || c = '\r').reverse

/-- The name that a line gives to the template below it. -/
def marker? (line : List Char) : Option String :=
  match Text.after? "@@ ".toList (bareLine line) with
  | some name => if !name.isEmpty && name.all isNameChar then some (String.ofList name) else none
  | none => none

/-- The templates so far, and the one whose lines are being read: its name
and its text. -/
structure Reading where
  templates : Entries String
  current : Option (String × List Char)

namespace Reading

/-- The templates, the one being read included. -/
def finish (r : Reading) : Entries String :=
  match r.current with
  | some (name, body) => Entries.insert r.templates name (String.ofList (Text.trim body))
  | none => r.templates

/-- Read one more line. -/
def line (r : Reading) (l : List Char) : Reading :=
  match marker? l with
  | some name => ⟨r.finish, some (name, [])⟩
  | none => { r with current := r.current.map fun c => (c.1, c.2 ++ l) }

end Reading

/-- The templates that stand in a text. -/
def templates (text : String) : Entries String :=
  ((Text.lines text.toList).foldl Reading.line ⟨[], none⟩).finish

end Inline

end Mustache
