import Mustache.Program.Stored
import Mustache.Tree
/-!
# Mustache — compiling

The nodes of a parse tree become instructions, walked in the order of the
template. The walk carries the sections and overrides filed so far, the
pragmas seen so far, and whether the next piece of text or variable
starts a line.

A section is filed under the digest of its delimiters and its text. If
the key is taken, the nodes inside are not walked: equal text under equal
delimiters is compiled once.
-/

namespace Mustache

namespace Compile

/-- What the walk carries along. -/
structure State where
  pragmas : PragmaSet
  sections : Entries SectionBody
  blocks : Entries (List Instr)
  /-- Whether what is written next starts a line. -/
  startsLine : Bool

/-- A step of the walk: it may refuse a node, and goes on with a new
state. -/
abbrev Walk (α : Type) := StateT State (Except Error) α

/-- How a name is looked up, given the pragmas in effect. -/
def lookupOf (pragmas : PragmaSet) (id : String) : Lookup :=
  if id = "." then .top
  else if pragmas.has .anchoredDot ∧ id.toList.head? = some '.' then .findAnchored id
  else if '.' ∈ id.toList then .findDotted id
  else .find id

/-- The filters of a tag. -/
def filtersOf (pragmas : PragmaSet) (names : List String) : List Filter :=
  names.map fun name => ⟨name, lookupOf pragmas name⟩

/-- The name of a partial or parent. -/
def templateNameOf (pragmas : PragmaSet) (t : Token) : TemplateName :=
  if t.dynamic then .dynamic (lookupOf pragmas t.name) else .fixed t.name

/-- The text between the tags of a section: nothing if the offsets are not
those of a piece of the template. -/
def sectionSource (source : String) (t : Token) : String :=
  let start := t.offset?.getD 0
  String.ofList ((Text.slice? start (t.stop?.getD start) source.toList).getD [])

/-- The text under whose digest a section is filed. -/
def sectionText (delimiters : Option Delimiters) (source : String) : String :=
  (delimiters.elim "" Delimiters.tag) ++ "\n" ++ source

/-- Ask whether a line starts here; what comes after does not start it. -/
def takeLineStart : Walk Bool := do
  let starts := (← get).startsLine
  modify fun s => { s with startsLine := false }
  return starts

/-- A variable. -/
def variableInstr (t : Token) (escape : Bool) : Walk Instr := do
  let pragmas := (← get).pragmas
  let indent ← takeLineStart
  return .interpolate (lookupOf pragmas t.name) (filtersOf pragmas t.filters) escape indent

mutual

/-- The instructions of nodes. -/
def walk (digest : String → String) (source : String) : List Token → Walk (List Instr)
  | [] => return []
  | t :: ts => do
    let code ← walkNode digest source t
    let more ← walk digest source ts
    return code ++ more

/-- The instructions of a node. -/
def walkNode (digest : String → String) (source : String) : Token → Walk (List Instr)
  | t@⟨kind, _, _, _, _, delimiters?, _, filters, indent?, _, nodes?⟩ => do
    match kind with
    | .pragma =>
      modify fun s => { s with pragmas := s.pragmas.enable t.name }
      return []
    | .sectionTag =>
      let delimiters := Delimiters.unlessStandard delimiters?
      let text := sectionSource source t
      let key := digest (sectionText delimiters text)
      if !(Entries.has (← get).sections key) then
        let body ← walkInside digest source nodes?
        modify fun s =>
          { s with sections := Entries.insert s.sections key ⟨text, delimiters, body⟩ }
      let pragmas := (← get).pragmas
      return [.enter (lookupOf pragmas t.name) (filtersOf pragmas filters) key]
    | .invertedTag =>
      let pragmas := (← get).pragmas
      let body ← walkInside digest source nodes?
      return [.inverted (lookupOf pragmas t.name) (filtersOf pragmas filters) body]
    | .partialTag =>
      return [.insertPartial (templateNameOf (← get).pragmas t) (indent?.filter (· ≠ ""))]
    | .parentTag =>
      let overrides ← walkOverridesInside digest source nodes?
      return [.extend (templateNameOf (← get).pragmas t) overrides]
    | .blockVar =>
      let body ← walkInside digest source nodes?
      return [.block t.name body]
    | .comment => return []
    | .escaped => return [← variableInstr t true]
    | .tripleBrace | .ampersand => return [← variableInstr t false]
    | .text =>
      let indent ← takeLineStart
      modify fun s => { s with startsLine := t.endsLine }
      return [.text t.text indent]
    | .closingTag | .delimiterTag | .blockArg => throw (.malformed .misplaced t)

/-- The instructions of the nodes inside a tag. -/
def walkInside (digest : String → String) (source : String) :
    Option (List Token) → Walk (List Instr)
  | none => return []
  | some ts => walk digest source ts

/-- The overrides among the nodes inside a parent tag; everything else
there is scaffolding. -/
def walkOverrides (digest : String → String) (source : String) :
    List Token → Walk (List (String × String))
  | [] => return []
  | t :: ts => do
    let own ← walkOverride digest source t
    let more ← walkOverrides digest source ts
    return own ++ more

/-- The override that a node is, if it is one. -/
def walkOverride (digest : String → String) (source : String) :
    Token → Walk (List (String × String))
  | t@⟨kind, _, _, _, _, _, _, _, _, _, nodes?⟩ => do
    if kind = .blockArg then
      let body ← walkInside digest source nodes?
      let key := digest (Instr.bodyText body)
      modify fun s => { s with blocks := Entries.insertNew s.blocks key body }
      return [(t.name, key)]
    else return []

/-- The overrides inside a parent tag. -/
def walkOverridesInside (digest : String → String) (source : String) :
    Option (List Token) → Walk (List (String × String))
  | none => return []
  | some ts => walkOverrides digest source ts

end

end Compile

/-- The settings that shape a program, apart from its template. -/
structure CompileSettings where
  customEscape : Bool
  strictCallables : Bool
  entityFlags : UInt32

namespace Program

/-- The program of a parsed template. -/
def compile (digest : String → String) (pragmas : List Pragma) (settings : CompileSettings)
    (name source : String) (nodes : List Token) : Except Error Program := do
  let (body, s) ← (Compile.walk digest source nodes).run ⟨PragmaSet.ofPragmas pragmas, [], [], true⟩
  return {
    name := name
    strictCallables := settings.strictCallables
    escaping := if settings.customEscape then .custom else .html settings.entityFlags
    body := body
    sections := s.sections
    blocks := s.blocks }

end Program

end Mustache
