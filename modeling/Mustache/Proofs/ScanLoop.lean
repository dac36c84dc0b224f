import Mathlib.Data.Prod.Lex
import Mustache.Proofs.Run
import Mustache.Proofs.Segments
/-!
# Mustache — the scanner as a loop

The scanner can be written as a loop over the characters, with a place in the text, a
mode and a buffer (`Loop.step`). It looks at the text through slices between byte
offsets, and a slice that cuts a character or ends before it begins would be the end of
the program (`Halt.outside`). Each iteration logs the slices that it takes, so that what
it gives and that its slices are there is said at once (`Loop.Gives`).
-/

namespace Mustache

namespace Text

/-- A place in a text, in bytes, at which a character starts or the text ends. -/
def Boundary (cs : List Char) (place : Nat) : Prop := ∃ u v, cs = u ++ v ∧ byteLength u = place

theorem Boundary.le {cs : List Char} {place : Nat} (h : Boundary cs place) :
    place ≤ byteLength cs := by
  obtain ⟨u, v, rfl, rfl⟩ := h
  rw [byteLength_append]
  exact Nat.le_add_right _ _

end Text

namespace Scan

open Text (byteLength byteLength_append byteLength_cons after? cutAt? Boundary)

namespace Loop

/-! ## The loop -/

/-- What the loop is in the middle of. -/
inductive Mode
  | inText
  | inTagType
  | inTag
deriving DecidableEq

/-- The state of the loop: its mode, the kind of the tag last begun, the characters read
for the next token, the tokens so far, where the tag last begun begins, the line, the
delimiters in force, and the place in the text. -/
structure State where
  mode : Mode
  kind : TokenKind
  buffer : List Char
  tokens : List Token
  tagStart : Nat
  line : Nat
  delimiters : Delimiters
  place : Nat

/-- Where the loop begins. -/
def start (d : Delimiters) : State := ⟨.inText, .escaped, [], [], 0, 0, d, 0⟩

/-- Why the loop stops early: a slice that is none, or an error of the template. -/
inductive Halt
  | outside
  | failed (e : Error)

/-- Work that takes slices of a text, and the log of them. -/
abbrev Slicing := ExceptT Halt (StateM (List (Nat × Nat)))

/-- Tokens with a piece of text behind them, unless it is empty. -/
def withText (ts : List Token) (piece : List Char) (line : Nat) : List Token :=
  if piece.isEmpty then ts else ts ++ [Token.ofText (String.ofList piece) line]

namespace State

variable (s : State)

/-- The characters of the opening delimiter. -/
def opening : List Char := s.delimiters.opening.toList

/-- The characters of the closing delimiter. -/
def closing : List Char := s.delimiters.closing.toList

/-- Where the tag last begun begins. -/
def cursor : Cursor := ⟨s.tagStart, s.line, s.delimiters⟩

/-- The buffer as a token of text, if there is something in it. -/
def flush : State := { s with buffer := [], tokens := withText s.tokens s.buffer s.line }

/-- One more character is read. -/
def take (c : Char) : State :=
  { s with buffer := s.buffer ++ [c], place := s.place + c.utf8Size }

/-- A newline is read, which ends a piece of text and a line. -/
def endLine (c : Char) : State := { (s.take c).flush with line := s.line + 1 }

/-- A tag begins here, which ends a piece of text. -/
def openTag : State := { s.flush with mode := .inTagType, tagStart := s.place }

/-- A tag with a name is begun, and read from a place on. -/
def enter (kind : TokenKind) (place : Nat) : State :=
  { s with mode := .inTag, kind := kind, place := place }

/-- The error of a tag that does not end. -/
def unclosed : Error := Scan.unclosed s.cursor s.kind (Text.trim s.buffer)

/-- A tag has been read, up to a place. -/
def closed (t : Token) (place : Nat) : State :=
  { s with mode := .inText, buffer := [], tokens := s.tokens ++ [t], place := place }

/-- What the loop gives at the end of the text. -/
def finish : Except Halt (List Token) :=
  if s.mode = .inText then .ok s.flush.tokens else .error (.failed s.unclosed)

end State

section Step

variable (source : String)

/-- The number of bytes of the text. -/
def length : Nat := byteLength source.toList

/-- A slice of the text, if it is one. -/
def slice? (start stop : Nat) : Slicing (Option (List Char)) := do
  modify (· ++ [(start, stop)])
  return Text.slice? start stop source.toList

/-- A slice of the text, which has to be one. -/
def slice (start stop : Nat) : Slicing (List Char) := do
  match ← slice? source start stop with
  | some cs => return cs
  | none => throw .outside

/-- The text from a place on. -/
def behind (place : Nat) : Slicing (List Char) := slice source place (length source)

/-- The character at a place. -/
def nextChar (place : Nat) : Slicing Char := return (← behind source place).headD '\x00'

/-- The place where a pattern stands first. -/
def find? (pattern cs : List Char) : Option Nat :=
  (cutAt? pattern cs).map fun cut => byteLength cut.1

/-- An iteration in a text: a tag begins here, or one more character is read. Only here
the line number goes up. -/
def stepText (s : State) : Slicing State := do
  let ahead ← behind source s.place
  if (after? s.opening ahead).isSome then
    return s.openTag
  else
    let c ← nextChar source s.place
    if c = '\n' then return s.endLine c else return s.take c

/-- What stands from a place on before an ending, and the place behind that. -/
def upTo? (start : Nat) (ending : List Char) : Slicing (Option (List Char × Nat)) := do
  match (← slice? source start (length source)).bind (find? ending) with
  | none => return none
  | some offset =>
    let inside ← slice source start (start + offset)
    return some (inside, start + offset + byteLength ending)

/-- A set-delimiter tag is read at once, from behind its sigil. -/
def stepDelimiters (s : State) (start : Nat) : Slicing State := do
  match ← upTo? source start ('=' :: s.closing) with
  | none => throw (.failed s.unclosed)
  | some (inside, stop) =>
    let spec := String.ofList (Text.trim inside)
    let token := Token.bare .delimiterTag s.line
    match Delimiters.ofText? spec with
    | none => throw (.failed (.malformed (.invalidDelimiters spec) token))
    | some d =>
      return { s with
        mode := .inText, tokens := s.tokens ++ [token], delimiters := d, place := stop }

/-- A pragma tag is read at once, from behind its sigil. Its token comes first. -/
def stepPragma (s : State) (start : Nat) : Slicing State := do
  match ← upTo? source start s.closing with
  | none => throw (.failed s.unclosed)
  | some (inside, stop) =>
    let token := Token.ofTag .pragma (String.ofList (Text.trim inside)) 0
    return { s with mode := .inText, tokens := token :: s.tokens, place := stop }

/-- A tag of some kind, from behind its sigil. -/
def stepKind (s : State) (kind : TokenKind) (place : Nat) : Slicing State :=
  match kind with
  | .delimiterTag => stepDelimiters source { s with kind := .delimiterTag } place
  | .pragma => stepPragma source { s with kind := .pragma } place
  | kind => return s.enter kind place

/-- A sigil tells the kind of a tag, and is taken for one byte. -/
def stepSigil (s : State) (ahead : List Char) (place : Nat) : Slicing State :=
  match ahead.head?.bind TokenKind.ofSigil? with
  | some kind => stepKind source s kind (place + 1)
  | none => stepKind source s .escaped place

/-- An iteration where a tag begins: what stands behind the opening delimiter decides. -/
def stepTagType (s : State) : Slicing State := do
  let place := s.place + byteLength s.opening
  stepSigil source s (← behind source place) place

/-- The end of a tag with a name. Where two braces close a tag that opens with a third
one, the byte behind them has to be one more. -/
def stepClosing (s : State) : Slicing State :=
  let stop := s.place + byteLength s.closing
  let token (name : List Char) :=
    tagToken s.cursor s.kind name (if s.kind = .closingTag then s.tagStart else stop)
  let name := Text.trim s.buffer
  let mismatched := Halt.failed (.malformed .mismatchedBraces (token name))
  if s.kind = .tripleBrace then
    if s.delimiters.closing = Delimiters.standard.closing then
      if (Text.bytesOf source)[s.place + 2]? = some 0x7D then
        return s.closed (token name) (stop + 1)
      else throw mismatched
    else if name.getLast? = some '\x7d' then
      return s.closed (token (Text.trim name.dropLast)) stop
    else throw mismatched
  else return s.closed (token name) stop

/-- An iteration in a tag: it ends here, or one more character is read. -/
def stepTag (s : State) : Slicing State := do
  let ahead ← behind source s.place
  if (after? s.closing ahead).isSome then stepClosing source s
  else return s.take (← nextChar source s.place)

/-- **One iteration of the loop.** -/
def step (s : State) : Slicing State :=
  match s.mode with
  | .inText => stepText source s
  | .inTagType => stepTagType source s
  | .inTag => stepTag source s

/-- What an iteration gives. -/
def iterate (s : State) : Except Halt State := (outcome (step source s) []).1

/-- The slices that an iteration takes. -/
def slices (s : State) : List (Nat × Nat) := (outcome (step source s) []).2

/-- **The whole loop**: it goes on while there is some text, and gives a result or
stops early. -/
inductive Loops : State → Except Halt (List Token) → Prop
  | done {s : State} : length source ≤ s.place → Loops s s.finish
  | halted {s : State} {halt : Halt} :
      s.place < length source → iterate source s = .error halt → Loops s (.error halt)
  | next {s s' : State} {result : Except Halt (List Token)} :
      s.place < length source → iterate source s = .ok s' → Loops s' result → Loops s result

/-- The states that the loop comes to. -/
inductive Reached (d : Delimiters) : State → Prop
  | start : Reached d (start d)
  | next {s s' : State} :
      Reached d s → s.place < length source → iterate source s = .ok s' → Reached d s'

/-- How much is left: the rest of the text, and whether a tag that begins here is still to
be noticed. -/
def left (s : State) : Nat ×ₗ Nat :=
  toLex (length source - s.place, if s.mode = .inText then 1 else 0)

end Step

/-! ## Slices -/

/-- Bounds of a slice: both at characters, and in order. -/
def IsSlice (source : String) (bounds : Nat × Nat) : Prop :=
  bounds.1 ≤ bounds.2 ∧ Boundary source.toList bounds.1 ∧ Boundary source.toList bounds.2

/-- **What work gives**, whose slices are all there. -/
def Gives {α : Type} (source : String) (run : Slicing α) (result : Except Halt α) : Prop :=
  ∀ log, ∃ taken, outcome run log = (result, log ++ taken) ∧
    ∀ bounds ∈ taken, IsSlice source bounds

section Gives

variable {α β : Type} {source : String} {u v w : List Char}

theorem Gives.pure (source : String) (a : α) :
    Gives source (Pure.pure a : Slicing α) (.ok a) :=
  fun log => ⟨[], by rw [List.append_nil, outcome_pure], nofun⟩

theorem Gives.throw (source : String) (halt : Halt) :
    Gives source (MonadExcept.throw halt : Slicing α) (.error halt) :=
  fun log => ⟨[], by rw [List.append_nil, outcome_throw], nofun⟩

theorem Gives.bind {run : Slicing α} {next : α → Slicing β} {a : α} {result : Except Halt β}
    (h : Gives source run (.ok a)) (hnext : Gives source (next a) result) :
    Gives source (run >>= next) result := by
  intro log
  obtain ⟨taken, hrun, htaken⟩ := h log
  obtain ⟨more, hmore, hslices⟩ := hnext (log ++ taken)
  refine ⟨taken ++ more, ?_, fun bounds hmem => ?_⟩
  · rw [outcome_bind, hrun, andThen_ok, hmore, List.append_assoc]
  · exact (List.mem_append.1 hmem).elim (htaken bounds) (hslices bounds)

theorem gives_slice? (h : source.toList = u ++ (v ++ w)) :
    Gives source (slice? source (byteLength u) (byteLength u + byteLength v)) (.ok (some v)) := by
  intro log
  refine ⟨[(byteLength u, byteLength u + byteLength v)], ?_, fun bounds hmem => ?_⟩
  · rw [slice?, outcome_bind, outcome_modify, andThen_ok, outcome_pure, h, Text.slice?_append]
  · rw [List.mem_singleton.1 hmem]
    exact ⟨Nat.le_add_right _ _, ⟨u, v ++ w, h, rfl⟩, u ++ v, w,
      by rw [h, List.append_assoc], byteLength_append u v⟩

theorem gives_slice (h : source.toList = u ++ (v ++ w)) :
    Gives source (slice source (byteLength u) (byteLength u + byteLength v)) (.ok v) :=
  (gives_slice? h).bind (.pure source v)

theorem length_eq (h : source.toList = u ++ v) : length source = byteLength u + byteLength v := by
  rw [length, h, byteLength_append]

theorem gives_slice?_behind (h : source.toList = u ++ v) :
    Gives source (slice? source (byteLength u) (length source)) (.ok (some v)) := by
  rw [length_eq h]
  exact gives_slice? (w := []) (by rw [List.append_nil, h])

theorem gives_behind (h : source.toList = u ++ v) :
    Gives source (behind source (byteLength u)) (.ok v) :=
  (gives_slice?_behind h).bind (.pure source v)

/-- What stands before an ending is found as the scanner finds it. -/
theorem gives_upTo? (h : source.toList = u ++ v) (ending : List Char) :
    Gives source (upTo? source (byteLength u) ending)
      (.ok ((cutAt? ending v).map fun cut =>
        (cut.1, byteLength u + byteLength cut.1 + byteLength ending))) := by
  refine (gives_slice?_behind h).bind ?_
  rw [Option.bind_some, find?]
  cases hcut : cutAt? ending v with
  | none => exact .pure source none
  | some cut =>
    have hinside : source.toList = u ++ (cut.1 ++ (ending ++ cut.2)) := by
      rw [h, Text.cutAt?_eq_some hcut, List.append_assoc]
    exact (gives_slice hinside).bind (.pure source _)

theorem gives_nextChar {c : Char} (h : source.toList = u ++ c :: v) :
    Gives source (nextChar source (byteLength u)) (.ok c) :=
  (gives_behind h).bind (.pure source c)

/-- What an iteration gives is one result. -/
theorem Gives.iterate_eq {s : State} {result : Except Halt State}
    (h : Gives source (step source s) result) : iterate source s = result := by
  obtain ⟨taken, hrun, -⟩ := h []
  rw [iterate, hrun]

theorem Gives.slices {s : State} {result : Except Halt State}
    (h : Gives source (step source s) result) :
    ∀ bounds ∈ slices source s, IsSlice source bounds := by
  obtain ⟨taken, hrun, htaken⟩ := h []
  rw [Loop.slices, hrun]
  exact htaken

end Gives

end Loop

end Scan

end Mustache
