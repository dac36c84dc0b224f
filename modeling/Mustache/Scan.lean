import Mustache.Error
/-!
# Mustache — scanning

A template is read from left to right, token by token. Where the opening
delimiter in force stands, a tag is read; elsewhere a piece of text, up to
the next opening delimiter or through the next newline. Each step leaves a
shorter rest, so scanning ends.

Pragma tags are moved to the front of the list: they hold for the whole
template.
-/

namespace Mustache

namespace Scan

open Text (after? cutAt? byteLength)

/-- Where scanning has got to: the offset in the text, the line, and the
delimiters in force. -/
structure Cursor where
  offset : Nat
  line : Nat
  delimiters : Delimiters

namespace Cursor

/-- The characters of the opening delimiter. -/
def opening (c : Cursor) : List Char := c.delimiters.opening.toList

/-- The characters of the closing delimiter. -/
def closing (c : Cursor) : List Char := c.delimiters.closing.toList

end Cursor

/-- A token that was read, where scanning goes on, and what is left. -/
structure Step where
  token : Token
  next : Cursor
  rest : List Char

/-! ## Text -/

/-- What follows the opening delimiter at the start of a text. A delimiter
without characters opens nothing. -/
def opened? (opening cs : List Char) : Option (List Char) :=
  if opening.isEmpty then none else after? opening cs

/-- The longest piece of text before an opening delimiter that holds no
newline but as its last character, and what follows it. -/
def chunk (opening : List Char) : List Char → List Char × List Char
  | [] => ([], [])
  | c :: r =>
    if (opened? opening (c :: r)).isSome then ([], c :: r)
    else if c = '\n' then ([c], r)
    else
      let cut := chunk opening r
      (c :: cut.1, cut.2)

/-- Read a piece of text. Only here the line number goes up. -/
def readText (start : Cursor) (cs : List Char) : Step :=
  let (piece, rest) := chunk start.opening cs
  { token := Token.ofText (String.ofList piece) start.line
    next :=
      { start with
        offset := start.offset + byteLength piece
        line := start.line + if piece.getLast? = some '\n' then 1 else 0 }
    rest := rest }

/-! ## Tags -/

/-- The token of a tag, from its kind, its name and its offset. -/
def tagToken (start : Cursor) (kind : TokenKind) (name : List Char) (offset : Nat) : Token :=
  { Token.ofTag kind (String.ofList name) start.line with
    delimiters? := some start.delimiters
    offset? := some offset }

/-- The error of a tag that the template ends in. -/
def unclosed (start : Cursor) (kind : TokenKind) (name : List Char) : Error :=
  .malformed .unclosedTag (tagToken start kind name start.offset)

/-- Read a tag with a name, from what follows its sigil. The name is the
trimmed inside. A tag that opens with a third brace has to end with one:
after the closing delimiter if that is made of two braces, before it if
not. -/
def readNamed (start : Cursor) (kind : TokenKind) (offset : Nat) (cs : List Char) :
    Except Error Step :=
  match cutAt? start.closing cs with
  | none => .error (unclosed start kind (Text.trim cs))
  | some (inside, rest) =>
    let stop := offset + byteLength inside + byteLength start.closing
    let name := Text.trim inside
    let token (name : List Char) :=
      tagToken start kind name (if kind = .closingTag then start.offset else stop)
    let mismatched : Error := .malformed .mismatchedBraces (token name)
    if kind = .tripleBrace then
      if start.delimiters.closing = Delimiters.standard.closing then
        match rest with
        | '\x7d' :: rest => .ok ⟨token name, { start with offset := stop + 1 }, rest⟩
        | _ => .error mismatched
      else if name.getLast? = some '\x7d' then
        .ok ⟨token (Text.trim name.dropLast), { start with offset := stop }, rest⟩
      else .error mismatched
    else .ok ⟨token name, { start with offset := stop }, rest⟩

/-- Read a set-delimiter tag, from what follows its sigil. It ends at the
first `=` that stands right before the closing delimiter, and the
delimiters it names are in force from there on. -/
def readDelimiters (start : Cursor) (offset : Nat) (cs : List Char) : Except Error Step :=
  match cutAt? ('=' :: start.closing) cs with
  | none => .error (unclosed start .delimiterTag [])
  | some (inside, rest) =>
    let token := Token.bare .delimiterTag start.line
    let spec := String.ofList (Text.trim inside)
    match Delimiters.ofText? spec with
    | none => .error (.malformed (.invalidDelimiters spec) token)
    | some delimiters =>
      let stop := offset + byteLength inside + byteLength ('=' :: start.closing)
      .ok ⟨token, ⟨stop, start.line, delimiters⟩, rest⟩

/-- Read a pragma tag, from what follows its sigil. Its token stands on
line 0, wherever the tag does. -/
def readPragma (start : Cursor) (offset : Nat) (cs : List Char) : Except Error Step :=
  match cutAt? start.closing cs with
  | none => .error (unclosed start .pragma [])
  | some (inside, rest) =>
    let token := Token.ofTag .pragma (String.ofList (Text.trim inside)) 0
    let stop := offset + byteLength inside + byteLength start.closing
    .ok ⟨token, { start with offset := stop }, rest⟩

/-- Read a tag, from what follows its opening delimiter. -/
def readTag (start : Cursor) (cs : List Char) : Except Error Step :=
  let offset := start.offset + byteLength start.opening
  match cs with
  | [] => readNamed start .escaped offset []
  | c :: r =>
    match TokenKind.ofSigil? c with
    | none => readNamed start .escaped offset (c :: r)
    | some .delimiterTag => readDelimiters start (offset + c.utf8Size) r
    | some .pragma => readPragma start (offset + c.utf8Size) r
    | some kind => readNamed start kind (offset + c.utf8Size) r

/-! ## The whole template -/

/-- Read the token at the start of a text. -/
def readToken (start : Cursor) (cs : List Char) : Except Error Step :=
  match opened? start.opening cs with
  | some inside => readTag start inside
  | none => .ok (readText start cs)

/-! ### Progress

A token takes at least one character: a tag its opening delimiter, a
piece of text its first character. -/

theorem opened?_length {opening cs inside : List Char} (h : opened? opening cs = some inside) :
    inside.length < cs.length := by
  unfold opened? at h
  split at h
  · cases h
  · next hne =>
    have hpos : 0 < opening.length := by
      cases opening with
      | nil => simp at hne
      | cons => simp
    rw [Text.after?_eq_some h, List.length_append]
    omega

theorem chunk_length (opening cs : List Char) : (chunk opening cs).2.length ≤ cs.length := by
  induction cs with
  | nil => simp [chunk]
  | cons c r ih =>
    rw [chunk]
    split
    · exact Nat.le_refl _
    · split
      · exact Nat.le_succ _
      · exact Nat.le_succ_of_le ih

theorem readText_length {start : Cursor} {c : Char} {r : List Char}
    (h : opened? start.opening (c :: r) = none) :
    (readText start (c :: r)).rest.length < (c :: r).length := by
  simp only [readText, chunk, h, Option.isSome_none, Bool.false_eq_true, if_false]
  split
  · exact Nat.lt_succ_self _
  · exact Nat.lt_succ_of_le (chunk_length _ _)

theorem readNamed_length {start : Cursor} {kind : TokenKind} {offset : Nat} {cs : List Char}
    {step : Step} (h : readNamed start kind offset cs = .ok step) :
    step.rest.length ≤ cs.length := by
  unfold readNamed at h
  split at h
  · cases h
  · next inside rest hcut =>
    have hrest := Text.cutAt?_length hcut
    dsimp only at h
    split at h
    · split at h
      · split at h
        · cases h
          exact Nat.le_of_succ_le hrest
        · cases h
      · split at h
        · cases h
          exact hrest
        · cases h
    · cases h
      exact hrest

theorem readDelimiters_length {start : Cursor} {offset : Nat} {cs : List Char} {step : Step}
    (h : readDelimiters start offset cs = .ok step) : step.rest.length ≤ cs.length := by
  unfold readDelimiters at h
  split at h
  · cases h
  · next inside rest hcut =>
    dsimp only at h
    split at h
    · cases h
    · cases h
      exact Text.cutAt?_length hcut

theorem readPragma_length {start : Cursor} {offset : Nat} {cs : List Char} {step : Step}
    (h : readPragma start offset cs = .ok step) : step.rest.length ≤ cs.length := by
  unfold readPragma at h
  split at h
  · cases h
  · next inside rest hcut =>
    cases h
    exact Text.cutAt?_length hcut

theorem readTag_length {start : Cursor} {cs : List Char} {step : Step}
    (h : readTag start cs = .ok step) : step.rest.length ≤ cs.length := by
  unfold readTag at h
  dsimp only at h
  split at h
  · exact readNamed_length h
  · split at h
    · exact readNamed_length h
    · exact Nat.le_succ_of_le (readDelimiters_length h)
    · exact Nat.le_succ_of_le (readPragma_length h)
    · exact Nat.le_succ_of_le (readNamed_length h)

/-- What follows a token is shorter than the text it is read from. -/
theorem readToken_length {start : Cursor} {c : Char} {r : List Char} {step : Step}
    (h : readToken start (c :: r) = .ok step) : step.rest.length < (c :: r).length := by
  unfold readToken at h
  split at h
  · next inside hopen => exact Nat.lt_of_le_of_lt (readTag_length h) (opened?_length hopen)
  · next hopen =>
    cases h
    exact readText_length hopen

/-- The tokens of a text in the order in which they stand. -/
def tokensFrom (start : Cursor) (cs : List Char) : Except Error (List Token) :=
  match cs with
  | [] => .ok []
  | c :: r =>
    match _h : readToken start (c :: r) with
    | .ok step => (tokensFrom step.next step.rest).map (step.token :: ·)
    | .error e => .error e
termination_by cs.length
decreasing_by exact readToken_length _h

/-- Pragmas first, the last one foremost, and then everything else. -/
def hoistPragmas (ts : List Token) : List Token :=
  (ts.filter fun t => t.kind = .pragma).reverse ++ ts.filter fun t => t.kind ≠ .pragma

end Scan

/-- The tokens of a template that starts with the given delimiters. -/
def Token.scan (delimiters : Delimiters) (text : String) : Except Error (List Token) :=
  (Scan.tokensFrom ⟨0, 0, delimiters⟩ text.toList).map Scan.hoistPragmas

end Mustache
