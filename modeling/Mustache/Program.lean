import Mustache.Delimiters
import Mustache.Entries
/-!
# Mustache — programs

The compiled form of a template: a list of instructions, the bodies of
its sections and the bodies of the overrides in its parent tags. Sections
and overrides are filed under keys, so that equal ones are stored once
and used by every tag that has them.
-/

namespace Mustache

/-- How a name is looked up in the context. -/
inductive Lookup where
  /-- The top frame itself. -/
  | top
  /-- A name without dots, through all frames. -/
  | find (id : String)
  /-- The first part of a dotted name through all frames, the others inside
  what was found. -/
  | findDotted (id : String)
  /-- A name with a leading dot, inside the top frame. -/
  | findAnchored (id : String)
  deriving DecidableEq, Repr

/-- The name of a partial or parent: fixed, or held by the context. -/
inductive TemplateName where
  | fixed (name : String)
  | dynamic (lookup : Lookup)
  deriving DecidableEq, Repr

/-- A filter of a tag. -/
structure Filter where
  name : String
  lookup : Lookup
  deriving DecidableEq, Repr

/-- How the text of escaped variables is escaped: by the engine's own
function, or as HTML under some flags. -/
inductive Escaping where
  | custom
  | html (flags : UInt32)
  deriving DecidableEq, Repr

/-- An instruction. The flag `indent` marks an instruction that starts a
line of its template. -/
inductive Instr where
  /-- Write a text. -/
  | text (value : String) (indent : Bool)
  /-- Write the text of a value. -/
  | interpolate (lookup : Lookup) (filters : List Filter) (escape : Bool) (indent : Bool)
  /-- Run the section filed under a key, for a value. -/
  | enter (lookup : Lookup) (filters : List Filter) (key : String)
  /-- Run a body if a value is empty. -/
  | inverted (lookup : Lookup) (filters : List Filter) (body : List Instr)
  /-- Run another template, its lines indented if white space was captured
  before the tag. -/
  | insertPartial (name : TemplateName) (indent : Option String)
  /-- Run another template with overrides for its blocks: pairs of a block
  name and the key of a body. -/
  | extend (name : TemplateName) (overrides : List (String × String))
  /-- Run the override of a block, or else its default. -/
  | block (name : String) (default : List Instr)
  deriving Repr

/-- A section that is filed: the text between its tags, the delimiters it
is written with unless they are standard, and its body. -/
structure SectionBody where
  source : String
  delimiters : Option Delimiters
  body : List Instr
  deriving Repr

/-- A compiled template. -/
structure Program where
  name : String
  /-- Whether pairs of an object and a method name are not callable. -/
  strictCallables : Bool
  escaping : Escaping
  body : List Instr
  sections : Entries SectionBody
  blocks : Entries (List Instr)
  deriving Repr

end Mustache
