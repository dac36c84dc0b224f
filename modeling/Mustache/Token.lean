import Mustache.Delimiters
import Mustache.Text.Blank
/-!
# Mustache — tokens

The scanner cuts a template into tokens, the pieces of text and the tags
between them. The parse tree is made of the same tokens: a tag that
encloses others gets, with its closing tag, the list of the nodes inside.
-/

namespace Mustache

/-- What a token is. -/
inductive TokenKind where
  | sectionTag
  | invertedTag
  | closingTag
  | comment
  | partialTag
  | parentTag
  | delimiterTag
  /-- A variable whose text is escaped. -/
  | escaped
  /-- A variable in triple braces. -/
  | tripleBrace
  /-- A variable with an ampersand. -/
  | ampersand
  | text
  | pragma
  /-- A block that others may override. -/
  | blockVar
  /-- A block inside a parent tag, which overrides one of the parent. -/
  | blockArg
  deriving DecidableEq, Repr

namespace TokenKind

/-- Every kind, in order. -/
def all : List TokenKind :=
  [.sectionTag, .invertedTag, .closingTag, .comment, .partialTag, .parentTag, .delimiterTag,
   .escaped, .tripleBrace, .ampersand, .text, .pragma, .blockVar, .blockArg]

/-- The kind of tag that a character right after the opening delimiter
announces. -/
def ofSigil? (c : Char) : Option TokenKind :=
  if c = '#' then some .sectionTag
  else if c = '^' then some .invertedTag
  else if c = '/' then some .closingTag
  else if c = '!' then some .comment
  else if c = '>' then some .partialTag
  else if c = '<' then some .parentTag
  else if c = '=' then some .delimiterTag
  else if c = '\x7b' then some .tripleBrace
  else if c = '&' then some .ampersand
  else if c = '%' then some .pragma
  else if c = '$' then some .blockVar
  else none

/-- How a message calls a token of this kind. -/
def label : TokenKind → String
  | .sectionTag => "section"
  | .invertedTag => "inverted section"
  | .closingTag => "section end"
  | .comment => "comment"
  | .partialTag => "partial"
  | .parentTag => "parent"
  | .delimiterTag => "set delimiter"
  | .escaped => "variable"
  | .tripleBrace | .ampersand => "unescaped variable"
  | .text => "text"
  | .pragma => "pragma"
  | .blockVar | .blockArg => "block variable"

end TokenKind

/-- A token of a template, or a node of its parse tree. -/
structure Token where
  kind : TokenKind
  /-- The line it stands on, the first one being 0. -/
  line : Nat
  /-- Where the text that a tag encloses begins or ends: the offset right
  after the tag, or right before it for a closing tag. -/
  offset? : Option Nat
  name? : Option String
  /-- The characters of a text token. -/
  text? : Option String
  /-- The delimiters the tag is written with. -/
  delimiters? : Option Delimiters
  /-- Whether the name names a value that holds the name. -/
  dynamic : Bool
  /-- The filters after the name. -/
  filters : List String
  /-- The white space before a partial that has its line to itself. -/
  indent? : Option String
  /-- The offset of the closing tag. -/
  stop? : Option Nat
  /-- What the tag encloses. -/
  nodes? : Option (List Token)

namespace Token

/-- A token of which only kind and line are known. -/
def bare (kind : TokenKind) (line : Nat) : Token :=
  ⟨kind, line, none, none, none, none, false, [], none, none, none⟩

instance : Inhabited Token := ⟨bare .text 0⟩

/-- A piece of text. -/
def ofText (text : String) (line : Nat) : Token := { bare .text line with text? := some text }

/-- A tag with a name. -/
def ofTag (kind : TokenKind) (name : String) (line : Nat) : Token :=
  { bare kind line with name? := some name }

def name (t : Token) : String := t.name?.getD ""

def text (t : Token) : String := t.text?.getD ""

def nodes (t : Token) : List Token := t.nodes?.getD []

/-- A piece of text that is all white space. -/
def isBlank (t : Token) : Bool := t.kind = .text && isBlankString t.text

/-- The text of the token ends its line. -/
def endsLine (t : Token) : Bool := t.text.toList.getLast? = some '\n'

end Token

end Mustache
