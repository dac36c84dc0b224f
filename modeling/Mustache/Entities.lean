/-!
# Mustache — HTML entities

In HTML some characters have to be written as entities. Which quotes are
among them, and how the single quote is written, is a matter of flags: a
set of bits, some of which have no meaning here and are kept all the
same.
-/

namespace Mustache

namespace Entities

/-- The bit that has double quotes written as entities. -/
def doubleQuotes : UInt32 := 2

/-- The bits that together have both kinds of quotes written as entities. -/
def bothQuotes : UInt32 := 3

/-- The bits that say which kind of document it is; none of them is set
for HTML 4. -/
def documentKinds : UInt32 := 48

/-- The flags of an engine that is not told otherwise: both kinds of
quotes, and the bit for replacing invalid characters. -/
def standard : UInt32 := 11

/-- Some of the bits are set. -/
def anySet (flags bits : UInt32) : Bool := flags &&& bits ≠ 0

/-- All of the bits are set. -/
def allSet (flags bits : UInt32) : Bool := flags &&& bits = bits

/-- The entity for a single quote: HTML 4 has no name for it. -/
def apostrophe (flags : UInt32) : String :=
  if anySet flags documentKinds then "&apos;" else "&#039;"

/-- A character as it is written in HTML. -/
def escapeChar (flags : UInt32) (c : Char) : List Char :=
  if c = '&' then "&amp;".toList
  else if c = '<' then "&lt;".toList
  else if c = '>' then "&gt;".toList
  else if c = '"' then (if anySet flags doubleQuotes then "&quot;".toList else [c])
  else if c = '\'' then (if allSet flags bothQuotes then (apostrophe flags).toList else [c])
  else [c]

/-- A text as it is written in HTML. -/
def escape (flags : UInt32) (text : String) : String :=
  String.ofList (text.toList.flatMap (escapeChar flags))

end Entities

end Mustache
