import Mustache.Pragma
import Mustache.Scan
/-!
# Mustache — the parse tree

The tokens of a template become a tree: each tag that encloses others
gets the nodes between it and its closing tag. The tree is built from
left to right with a stack of the tags that are open.

On the way a tag that has its line to itself takes the white space of the
line with it. Which tokens are white space next to a tag is read off its
neighbours: the last sibling already built and the next token not yet
read.
-/

namespace Mustache

namespace Tree

/-- A tag that is open, and the siblings before it, last one first. -/
structure OpenTag where
  tag : Token
  before : List Token

/-- A tree under construction. -/
structure State where
  /-- The line of the last token. -/
  line? : Option Nat
  /-- How many tokens of that line were read before it. -/
  position : Nat
  pragmas : PragmaSet
  /-- The nodes inside the innermost open tag, last one first. -/
  siblings : List Token
  /-- The open tags, innermost one first. -/
  opened : List OpenTag

namespace State

/-- The tag that encloses the next token. -/
def enclosing? (s : State) : Option Token := s.opened.head?.map (·.tag)

/-- Count a token on its line. -/
def countLine (s : State) (line : Nat) : State :=
  if s.line? = some line then { s with position := s.position + 1 }
  else { s with line? := some line, position := 0 }

/-- Add a node. -/
def add (s : State) (node : Token) : State := { s with siblings := node :: s.siblings }

/-- Open a tag. -/
def enter (s : State) (tag : Token) : State :=
  { s with siblings := [], opened := ⟨tag, s.siblings⟩ :: s.opened }

end State

/-! ## Standalone lines -/

/-- What is left when the white space around a tag is taken away. -/
structure Cleared where
  state : State
  /-- Whether the next token is white space that goes too. -/
  dropsNext : Bool
  /-- The white space that stood before the tag, if it was taken away. -/
  lead? : Option Token

/-- Take the white space around the token just counted away, if it has
its line to itself: at most one token was read on the line, and it is
white space; and what follows is on another line, or is white space that
ends the line or the template. -/
def clear (s : State) (rest : List Token) : Cleared :=
  let untouched : Cleared := ⟨s, false, none⟩
  let withoutLead (dropsNext : Bool) : Cleared :=
    match s.position, s.siblings with
    | 1, lead :: before => ⟨{ s with siblings := before }, dropsNext, some lead⟩
    | _, _ => ⟨s, dropsNext, none⟩
  let leadFits : Bool :=
    match s.position, s.siblings with
    | 0, _ => true
    | 1, lead :: _ => lead.isBlank
    | 1, [] => true
    | _, _ => false
  if !leadFits then untouched
  else
    match rest with
    | [] => withoutLead false
    | next :: more =>
      if s.line? ≠ some next.line then withoutLead false
      else if next.isBlank && (more.isEmpty || next.endsLine) then withoutLead true
      else untouched

/-! ## Names -/

/-- Read a leading star off a name: the name comes from the context then,
which only partials, parents and closing tags admit. -/
def readDynamicName (t : Token) : Except Error Token :=
  match Text.trimStart t.name.toList with
  | '*' :: r =>
    if t.kind = .partialTag ∨ t.kind = .parentTag ∨ t.kind = .closingTag then
      .ok { t with name? := some (String.ofList (Text.trimStart r)), dynamic := true }
    else .error (.malformed .invalidDynamicName t)
  | _ => .ok t

/-- Read the filters off a name. -/
def readFilters (t : Token) : Token :=
  match (Text.splitWhere (· = '|') t.name.toList).map fun p => String.ofList (Text.trim p) with
  | name :: filter :: filters => { t with name? := some name, filters := filter :: filters }
  | _ => t

/-- Read the name of a token as the pragmas in effect have it. -/
def readName (pragmas : PragmaSet) (t : Token) : Except Error Token :=
  if t.kind = .comment ∨ t.name?.isNone then .ok t
  else do
    let t ← if pragmas.has .dynamicNames then readDynamicName t else .ok t
    return if pragmas.has .filters then readFilters t else t

/-! ## Building -/

/-- Refuse a tag that stands directly inside a parent tag. -/
def checkOutsideParent (s : State) (t : Token) : Except Error Unit :=
  if s.enclosing?.any fun p => p.kind = .parentTag then .error (.malformed .illegalInParent t)
  else .ok ()

/-- What a token does: the tree with it, and whether it takes the next
token away. -/
abbrev Placed := Except Error (State × Bool)

/-- Close the innermost open tag. -/
def close (s : State) (t : Token) (rest : List Token) : Placed :=
  match s.opened with
  | [] => .error (.malformed .unexpectedClosing t)
  | ⟨tag, before⟩ :: opened =>
    if t.name ≠ tag.name ∨ t.dynamic ≠ tag.dynamic then .error (.malformed (.nesting tag) t)
    else
      let cleared := clear s rest
      let node := { tag with stop? := t.offset?, nodes? := some cleared.state.siblings.reverse }
      .ok ({ cleared.state with siblings := node :: before, opened := opened }, cleared.dropsNext)

/-- Add a token whose line has been counted and whose name has been read. -/
def place (s : State) (t : Token) (rest : List Token) : Placed :=
  let cleared := clear s rest
  match t.kind with
  | .delimiterTag => do
    checkOutsideParent s t
    return (cleared.state, cleared.dropsNext)
  | .sectionTag | .invertedTag => do
    checkOutsideParent s t
    return (cleared.state.enter t, cleared.dropsNext)
  | .closingTag => close s t rest
  | .partialTag => do
    checkOutsideParent s t
    let t :=
      match cleared.lead? with
      | some lead => { t with indent? := lead.text? }
      | none => t
    return (cleared.state.add t, cleared.dropsNext)
  | .parentTag => do
    checkOutsideParent s t
    return (s.enter t, false)
  | .blockVar =>
    if s.pragmas.has .blocks then
      let inParent := s.enclosing?.any fun p => p.kind = .parentTag
      let t := if inParent then { t with kind := .blockArg } else t
      .ok (cleared.state.enter t, cleared.dropsNext)
    else
      -- the sigil is a character of the name then
      .ok (s.add { t with kind := .escaped, name? := some ("$" ++ t.name) }, false)
  | .pragma =>
    let state := { cleared.state with pragmas := s.pragmas.enable t.name }
    .ok (state.add t, cleared.dropsNext)
  | .comment => .ok (cleared.state.add t, cleared.dropsNext)
  | _ => .ok (s.add t, false)

/-- Add a token, given the tokens after it. -/
def step (s : State) (t : Token) (rest : List Token) : Placed := do
  let s := s.countLine t.line
  let t ← readName s.pragmas t
  place s t rest

/-- Add token after token. -/
def build (s : State) (ts : List Token) : Except Error State :=
  match ts with
  | [] => .ok s
  | t :: rest =>
    match step s t rest with
    | .ok (s, dropsNext) => build s (if dropsNext then rest.tail else rest)
    | .error e => .error e
termination_by ts.length
decreasing_by
  rw [List.length_cons]
  split
  · rw [List.length_tail]
    omega
  · exact Nat.lt_succ_self _

end Tree

/-- A parsed template: its nodes, and the pragmas in effect at its end. -/
structure Tree where
  nodes : List Token
  pragmas : PragmaSet

namespace Tree

/-- The tree of a list of tokens, with pragmas in effect from the start. -/
def ofTokens (pragmas : List Pragma) (ts : List Token) : Except Error Tree := do
  let s ← build ⟨none, 0, PragmaSet.ofPragmas pragmas, [], []⟩ ts
  match s.opened with
  | [] => return ⟨s.siblings.reverse, s.pragmas⟩
  | ⟨tag, _⟩ :: _ => .error (.malformed .missingClosing tag)

end Tree

end Mustache
