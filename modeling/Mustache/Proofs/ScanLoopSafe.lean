import Mustache.Proofs.Files
import Mustache.Proofs.ScanLoop
import Mustache.Proofs.Tiling
/-!
# Mustache — the loop is safe and ends

What carries the loop of the scanner is what it still owes (`State.due`): the tokens that
the scanner reads from here on, behind those that the loop has already. Every iteration
leaves that as it is, takes slices that are there, and comes closer to the end
(`advances`). So the loop ends, and with what the scanner gives (`loop_safe`).

The invariant (`Sane`) is about the text around the place: the buffer was read right
before it, and where a tag is being read, its end is none of the buffer. With that the
loop finds the end of a tag, character by character, where the scanner finds it with one
search.
-/

namespace Mustache

namespace Text

/-- A pattern is found where it stands. -/
theorem cutAt?_here {pattern cs rest : List Char} (h : after? pattern cs = some rest) :
    cutAt? pattern cs = some ([], rest) :=
  cutAt?_eq_some_iff.2 ⟨by rw [List.nil_append, after?_eq_some h], .nil⟩

/-- And further on where it does not stand. -/
theorem cutAt?_further {pattern r : List Char} {c : Char} (h : after? pattern (c :: r) = none) :
    cutAt? pattern (c :: r) = (cutAt? pattern r).map fun cut => (c :: cut.1, cut.2) := by
  rw [cutAt?, h]

open String (utf8EncodeChar) in
theorem length_flatMap_utf8EncodeChar (cs : List Char) :
    (cs.flatMap utf8EncodeChar).length = byteLength cs := by
  induction cs with
  | nil => rfl
  | cons c cs ih =>
    rw [List.flatMap_cons, List.length_append, ih, String.length_utf8EncodeChar, byteLength_cons]

/-- **The byte of a closing brace** is none of another character. -/
theorem getElem?_bytesOf_eq_brace_iff {source : String} {before rest : List Char}
    (h : source.toList = before ++ rest) :
    (bytesOf source)[byteLength before]? = some 0x7D ↔ rest.head? = some '\x7d' := by
  rw [bytesOf_eq, h, List.flatMap_append, ← length_flatMap_utf8EncodeChar before,
    List.getElem?_append_right (Nat.le_refl _), Nat.sub_self]
  cases rest with
  | nil => exact ⟨nofun, nofun⟩
  | cons c rest =>
    obtain ⟨b, bs, hencode, hfirst⟩ := exists_firstChar c []
    rw [List.flatMap_cons, hencode, List.cons_append, List.getElem?_cons_zero, List.head?_cons,
      Option.some.injEq, Option.some.injEq]
    constructor
    · rintro rfl
      obtain ⟨hc, -⟩ : '\x7d' = c ∧ _ := Prod.mk.inj (Except.ok.inj hfirst)
      exact hc.symm
    · rintro rfl
      exact (List.cons.inj hencode).1.symm

end Text

namespace Scan

open Text (byteLength byteLength_append byteLength_cons after? cutAt? Boundary)

namespace Loop

/-! ## What the loop owes -/

/-- A token is put behind the others, or in front of them if it is a pragma. -/
def put (ts : List Token) (t : Token) : List Token :=
  if t.kind = .pragma then t :: ts else ts ++ [t]

/-- Tokens are put there one after the other. -/
def hoistInto (done raw : List Token) : List Token :=
  (raw.filter fun t => t.kind = .pragma).reverse ++
    (done ++ raw.filter fun t => t.kind ≠ .pragma)

theorem hoistInto_nil (done : List Token) : hoistInto done [] = done := List.append_nil done

theorem hoistInto_cons (done raw : List Token) (t : Token) :
    hoistInto done (t :: raw) = hoistInto (put done t) raw := by
  by_cases h : t.kind = .pragma <;> simp [hoistInto, put, h]

/-- The tokens from a place on, behind those that there are already. -/
def onward (done : List Token) (place : Cursor) (rest : List Char) : Except Error (List Token) :=
  (tokensFrom place rest).map (hoistInto done)

/-- The same, where a token is being read. -/
def goOn (done : List Token) : Except Error Step → Except Error (List Token)
  | .error e => .error e
  | .ok step => onward (put done step.token) step.next step.rest

theorem onward_nil (done : List Token) (place : Cursor) : onward done place [] = .ok done := by
  rw [onward, tokensFrom]
  exact congrArg Except.ok (hoistInto_nil done)

/-- The tokens from a place on begin with the one that is read there. -/
theorem onward_eq_goOn {rest : List Char} (hne : rest ≠ []) (done : List Token) (place : Cursor) :
    onward done place rest = goOn done (readToken place rest) := by
  rw [onward, tokensFrom_cons _ _ hne]
  cases readToken place rest with
  | error e => rfl
  | ok step =>
    rw [goOn, onward]
    dsimp only
    cases tokensFrom step.next step.rest with
    | error e => rfl
    | ok ts => exact congrArg Except.ok (hoistInto_cons done ts step.token)

namespace State

/-- **What the loop owes** from a state on: what the scanner gives for the token that the
loop is in the middle of, and for everything behind it. -/
def due (s : State) (rest : List Char) : Except Error (List Token) :=
  match s.mode with
  | .inText =>
    let cut := chunk s.opening rest
    onward (withText s.tokens (s.buffer ++ cut.1) s.line)
      ⟨s.place + byteLength cut.1, s.line + if cut.1.getLast? = some '\n' then 1 else 0,
        s.delimiters⟩ cut.2
  | .inTagType => goOn s.tokens (readToken s.cursor rest)
  | .inTag =>
    goOn s.tokens (readNamed s.cursor s.kind (s.place - byteLength s.buffer) (s.buffer ++ rest))

/-- A tag has been read: the loop goes on behind it. -/
def after (s : State) (step : Step) : State :=
  { s with
    mode := .inText, buffer := [], tokens := put s.tokens step.token
    line := step.next.line, delimiters := step.next.delimiters, place := step.next.offset }

/-- The loop reads a tag as the scanner does. -/
def answer (s : State) : Except Error Step → Except Halt State
  | .error e => .error (.failed e)
  | .ok step => .ok (s.after step)

end State

/-- **What holds at each iteration**, with the rest of the text. -/
structure Sane (source : String) (s : State) (rest : List Char) : Prop where
  accepted : s.delimiters.Accepted
  /-- What is in the buffer stands right before the place. -/
  text : ∃ before, source.toList = before ++ (s.buffer ++ rest) ∧
    byteLength before + byteLength s.buffer = s.place
  /-- Where a tag begins the buffer is empty, and the opening delimiter follows. -/
  inTagType : s.mode = .inTagType →
    s.buffer = [] ∧ s.tagStart = s.place ∧ ∃ inside, rest = s.opening ++ inside
  /-- A tag does not end in the buffer. -/
  inTag : s.mode = .inTag → s.kind ≠ .pragma ∧
    cutAt? s.closing (s.buffer ++ rest) =
      (cutAt? s.closing rest).map fun cut => (s.buffer ++ cut.1, cut.2)

/-- **An iteration that does its work**: it goes on nearer to the end, and owes the same,
or it stops with the error that was due. -/
def Advances (source : String) (s : State) (rest : List Char) : Prop :=
  (∃ s' rest', Gives source (step source s) (.ok s') ∧ Sane source s' rest' ∧
    left source s' < left source s ∧ s'.due rest' = s.due rest) ∨
  ∃ e, Gives source (step source s) (.error (.failed e)) ∧ s.due rest = .error e

namespace Sane

variable {source : String} {s s' : State} {rest rest' : List Char}

theorem of_inText (accepted : s.delimiters.Accepted)
    (text : ∃ before, source.toList = before ++ (s.buffer ++ rest) ∧
      byteLength before + byteLength s.buffer = s.place)
    (hmode : s.mode = .inText) : Sane source s rest :=
  ⟨accepted, text, fun h => absurd (hmode.symm.trans h) nofun,
    fun h => absurd (hmode.symm.trans h) nofun⟩

/-- The place is where the rest of the text begins. -/
theorem exists_before (h : Sane source s rest) :
    ∃ before, source.toList = before ++ rest ∧ byteLength before = s.place := by
  obtain ⟨before, htext, hplace⟩ := h.text
  exact ⟨before ++ s.buffer, by rw [htext, List.append_assoc],
    by rw [byteLength_append, hplace]⟩

theorem length_eq (h : Sane source s rest) : length source = s.place + byteLength rest := by
  obtain ⟨before, htext, hplace⟩ := h.exists_before
  rw [Loop.length_eq htext, hplace]

/-- The loop goes on just while there is some text. -/
theorem place_lt_iff (h : Sane source s rest) : s.place < length source ↔ rest ≠ [] := by
  rw [h.length_eq]
  constructor
  · rintro hlt rfl
    exact Nat.lt_irrefl _ hlt
  · exact fun hne => Nat.lt_add_of_pos_right (Text.byteLength_pos hne)

/-- One more character in the buffer. -/
theorem text_take {c : Char} {r : List Char} (h : Sane source s (c :: r)) :
    ∃ before, source.toList = before ++ ((s.take c).buffer ++ r) ∧
      byteLength before + byteLength (s.take c).buffer = (s.take c).place := by
  obtain ⟨before, htext, hplace⟩ := h.text
  refine ⟨before, ?_, ?_⟩
  · rw [htext, State.take, List.append_assoc, List.singleton_append]
  · rw [State.take, byteLength_append, ← Nat.add_assoc, hplace, byteLength_cons]
    rfl

/-- It is nearer to the end where less of the text is left. -/
theorem left_lt (h : Sane source s rest) (h' : Sane source s' rest')
    (hlt : byteLength rest' < byteLength rest) : left source s' < left source s := by
  have hlength := h.length_eq
  have hlength' := h'.length_eq
  exact Prod.Lex.toLex_lt_toLex.2 (.inl (by omega))

theorem left_take {c : Char} {r : List Char} (h : Sane source s (c :: r))
    (h' : Sane source s' r) : left source s' < left source s := by
  refine h.left_lt h' ?_
  rw [byteLength_cons]
  exact Nat.lt_add_of_pos_left c.utf8Size_pos

end Sane

section Iterations

variable {source : String} {s t : State} {rest cs before piece more inside : List Char} {c : Char}

/-! ### In a text -/

theorem opened?_eq {opening : List Char} (h : opening ≠ []) (cs : List Char) :
    opened? opening cs = after? opening cs := by
  rw [opened?, if_neg (by simpa using h)]

/-- What is due in the middle of a piece of text. -/
theorem due_of_chunk (hmode : s.mode = .inText) (h : chunk s.opening rest = (piece, more)) :
    s.due rest = onward (withText s.tokens (s.buffer ++ piece) s.line)
      ⟨s.place + byteLength piece, s.line + if piece.getLast? = some '\n' then 1 else 0,
        s.delimiters⟩ more := by
  rw [State.due, hmode]
  dsimp only
  rw [h]

/-- **With an empty buffer** everything is due from here on. -/
theorem due_of_fresh (hmode : s.mode = .inText) (hbuffer : s.buffer = []) (rest : List Char) :
    s.due rest = onward s.tokens ⟨s.place, s.line, s.delimiters⟩ rest := by
  rw [due_of_chunk hmode rfl, hbuffer, List.nil_append]
  by_cases hpiece : (chunk s.opening rest).1 = []
  · -- either nothing is left, or a tag begins here
    have hrest : (chunk s.opening rest).2 = rest := by
      have hall := (textSegment_chunk s.opening rest).1
      rw [hpiece] at hall
      exact hall.symm
    rw [hpiece, hrest]
    rfl
  · have hne : rest ≠ [] := by
      rintro rfl
      exact hpiece rfl
    have hclosed : opened? s.opening rest = none := by
      obtain ⟨c, r, rfl⟩ := List.exists_cons_of_ne_nil hne
      by_contra hopened
      rw [chunk, if_pos (Option.isSome_iff_ne_none.2 hopened)] at hpiece
      exact hpiece rfl
    have hread : readToken ⟨s.place, s.line, s.delimiters⟩ rest =
        .ok (readText ⟨s.place, s.line, s.delimiters⟩ rest) := by
      rw [readToken, show Cursor.opening ⟨s.place, s.line, s.delimiters⟩ = s.opening from rfl,
        hclosed]
    rw [onward_eq_goOn hne, hread, withText, if_neg (by simpa using hpiece)]
    rfl

/-- A tag that begins is due with everything behind it. -/
theorem due_openTag (hmode : s.mode = .inText) (hne : rest ≠ [])
    (hopened : (opened? s.opening rest).isSome = true) : s.openTag.due rest = s.due rest := by
  have hchunk : chunk s.opening rest = ([], rest) := by
    obtain ⟨c, r, rfl⟩ := List.exists_cons_of_ne_nil hne
    rw [chunk, if_pos hopened]
  rw [due_of_chunk hmode hchunk, List.append_nil, onward_eq_goOn hne]
  rfl

/-- A newline ends the piece of text. -/
theorem due_endLine (hmode : s.mode = .inText)
    (hclosed : ¬ (opened? s.opening ('\n' :: rest)).isSome = true) :
    (s.endLine '\n').due rest = s.due ('\n' :: rest) := by
  have hchunk : chunk s.opening ('\n' :: rest) = (['\n'], rest) := by
    rw [chunk, if_neg hclosed, if_pos rfl]
  rw [due_of_chunk hmode hchunk, due_of_fresh (s := s.endLine '\n') hmode rfl]
  rfl

/-- Any other character is part of the piece that is due. -/
theorem due_take (hmode : s.mode = .inText) (hc : c ≠ '\n')
    (hclosed : ¬ (opened? s.opening (c :: rest)).isSome = true) :
    (s.take c).due rest = s.due (c :: rest) := by
  have hchunk : chunk s.opening (c :: rest) =
      (c :: (chunk s.opening rest).1, (chunk s.opening rest).2) := by
    rw [chunk, if_neg hclosed, if_neg hc]
  have hlast : (c :: (chunk s.opening rest).1).getLast? = some '\n' ↔
      (chunk s.opening rest).1.getLast? = some '\n' := by
    cases (chunk s.opening rest).1 with
    | nil => simp [hc]
    | cons d piece => rw [List.getLast?_cons_cons]
  rw [due_of_chunk hmode hchunk, due_of_chunk (s := s.take c) hmode rfl]
  simp only [hlast, byteLength_cons, State.take, List.append_assoc, List.singleton_append,
    Nat.add_assoc]
  rfl

theorem advances_inText (h : Sane source s rest) (hmode : s.mode = .inText) (hne : rest ≠ []) :
    Advances source s rest := by
  obtain ⟨before, htext, hplace⟩ := h.exists_before
  have hopening : s.opening ≠ [] := h.accepted.ne_nil.1
  have hbehind := gives_behind htext
  have hstep : step source s = stepText source s := by rw [step, hmode]
  rw [hplace] at hbehind
  rw [Advances, hstep]
  obtain ⟨c, r, rfl⟩ := List.exists_cons_of_ne_nil hne
  have hchar := gives_nextChar htext
  rw [hplace] at hchar
  -- a tag opens here, or a character is taken and its line may end
  cases hopen : after? s.opening (c :: r) with
  | some inside =>
    have hopened : (opened? s.opening (c :: r)).isSome = true := by
      rw [opened?_eq hopening, hopen]
      rfl
    refine .inl ⟨s.openTag, c :: r, hbehind.bind ?_, ⟨h.accepted, ⟨before, htext, hplace⟩,
      fun _ => ⟨rfl, rfl, inside, Text.after?_eq_some hopen⟩, nofun⟩, ?_,
      due_openTag hmode hne hopened⟩
    · rw [hopen]
      exact .pure source _
    · refine Prod.Lex.toLex_lt_toLex.2 (.inr ⟨rfl, ?_⟩)
      rw [if_neg nofun, if_pos hmode]
      exact Nat.one_pos
  | none =>
    have hclosed : ¬ (opened? s.opening (c :: r)).isSome = true := by
      rw [opened?_eq hopening, hopen]
      exact Bool.false_ne_true
    by_cases hc : c = '\n'
    · subst hc
      have hsane : Sane source (s.endLine '\n') r := by
        obtain ⟨before, htext, hplace⟩ := h.text_take
        exact .of_inText h.accepted ⟨before ++ (s.take '\n').buffer,
          by rw [htext, List.append_assoc]; rfl, by rw [byteLength_append, hplace]; rfl⟩ hmode
      refine .inl ⟨s.endLine '\n', r, hbehind.bind ?_, hsane, h.left_take hsane,
        due_endLine hmode hclosed⟩
      rw [hopen]
      exact hchar.bind (.pure source _)
    · have hsane : Sane source (s.take c) r := .of_inText h.accepted h.text_take hmode
      refine .inl ⟨s.take c, r, hbehind.bind ?_, hsane, h.left_take hsane,
        due_take hmode hc hclosed⟩
      rw [hopen]
      refine hchar.bind ?_
      rw [if_neg hc]
      exact .pure source _

/-! ### Tags that are read -/

/-- **An iteration reads a tag as the scanner does**, from some place on. -/
theorem advances_of_read {read : Except Error Step} (h : Sane source s rest)
    (hgives : Gives source (step source s) (t.answer read)) (htokens : t.tokens = s.tokens)
    (hdue : s.due rest = goOn s.tokens read) (htext : source.toList = before ++ cs)
    (hread : ∀ step, read = .ok step → step.next.delimiters.Accepted ∧
      (∃ segment, cs = segment ++ step.rest ∧
        step.next.offset = byteLength before + byteLength segment) ∧
      byteLength step.rest < byteLength rest) : Advances source s rest := by
  cases read with
  | error e => exact .inr ⟨e, hgives, hdue⟩
  | ok step =>
    obtain ⟨haccepted, ⟨segment, rfl, hoffset⟩, hlt⟩ := hread step rfl
    have hsane : Sane source (t.after step) step.rest :=
      .of_inText haccepted ⟨before ++ segment, by rw [htext, List.append_assoc]; rfl,
        by rw [byteLength_append, State.after, hoffset]; rfl⟩ rfl
    refine .inl ⟨t.after step, step.rest, hgives, hsane, h.left_lt hsane hlt, ?_⟩
    rw [hdue, due_of_fresh rfl rfl, State.after, htokens]
    rfl

/-- **A set-delimiter tag** is read as the scanner reads it. -/
theorem gives_stepDelimiters (hbuffer : s.buffer = []) (hkind : s.kind = .delimiterTag)
    (htext : source.toList = before ++ cs) :
    Gives source (stepDelimiters source s (byteLength before))
      (s.answer (readDelimiters s.cursor (byteLength before) cs)) := by
  obtain ⟨mode, kind, buffer, tokens, tagStart, line, d, place⟩ := s
  obtain rfl : buffer = [] := hbuffer
  obtain rfl : kind = .delimiterTag := hkind
  refine (gives_upTo? htext _).bind ?_
  dsimp only [readDelimiters, State.cursor, State.closing, Cursor.closing]
  cases cutAt? ('=' :: d.closing.toList) cs with
  | none => exact .throw source _
  | some cut =>
    dsimp only [Option.map_some]
    cases Delimiters.ofText? (String.ofList (Text.trim cut.1)) with
    | none => exact .throw source _
    | some d => exact .pure source _

/-- **A pragma tag** is read as the scanner reads it. -/
theorem gives_stepPragma (hbuffer : s.buffer = []) (hkind : s.kind = .pragma)
    (htext : source.toList = before ++ cs) :
    Gives source (stepPragma source s (byteLength before))
      (s.answer (readPragma s.cursor (byteLength before) cs)) := by
  obtain ⟨mode, kind, buffer, tokens, tagStart, line, d, place⟩ := s
  obtain rfl : buffer = [] := hbuffer
  obtain rfl : kind = .pragma := hkind
  refine (gives_upTo? htext _).bind ?_
  dsimp only [readPragma, State.cursor, State.closing, Cursor.closing]
  cases cutAt? d.closing.toList cs with
  | none => exact .throw source _
  | some cut => exact .pure source _

/-- Behind two braces the byte of a third one stands just if that character does. -/
theorem third_brace_iff (hbraces : s.delimiters.closing = Delimiters.standard.closing)
    (htext : source.toList = before ++ (s.closing ++ more)) (hplace : byteLength before = s.place) :
    (Text.bytesOf source)[s.place + 2]? = some 0x7D ↔ more.head? = some '\x7d' := by
  have htwo : byteLength s.closing = 2 := by
    rw [State.closing, hbraces]
    decide
  rw [← htwo, ← hplace, ← byteLength_append]
  exact Text.getElem?_bytesOf_eq_brace_iff (by rw [htext, List.append_assoc])

/-- **The end of a tag with a name** is read as the scanner reads it, from where the
buffer begins. -/
theorem gives_stepClosing {offset : Nat} (hpragma : s.kind ≠ .pragma)
    (hoffset : offset + byteLength s.buffer = s.place)
    (hcut : cutAt? s.closing cs = some (s.buffer, more))
    (htext : source.toList = before ++ (s.closing ++ more)) (hplace : byteLength before = s.place) :
    Gives source (stepClosing source s) (s.answer (readNamed s.cursor s.kind offset cs)) := by
  have hclosed {t : Token} (ht : t.kind = s.kind) (place : Nat) (rest : List Char) :
      Gives source (pure (s.closed t place))
        (s.answer (.ok ⟨t, { s.cursor with offset := place }, rest⟩)) := by
    rw [State.answer, State.after, put, if_neg (ht ▸ hpragma)]
    exact .pure source _
  have hread : cutAt? s.cursor.closing cs = some (s.buffer, more) := hcut
  rw [readNamed, hread, stepClosing]
  dsimp only
  rw [hoffset]
  -- only a tag that opened with a third brace looks for another one
  by_cases htriple : s.kind = .tripleBrace
  · have hopens : ¬ s.kind = .closingTag := by
      rw [htriple]
      decide
    simp only [if_pos htriple, if_neg hopens]
    by_cases hbraces : s.delimiters.closing = Delimiters.standard.closing
    · have hbyte := third_brace_iff hbraces htext hplace
      rw [if_pos hbraces, if_pos (show s.cursor.delimiters.closing = _ from hbraces)]
      by_cases hthird : more.head? = some '\x7d'
      · obtain ⟨more, rfl⟩ := List.head?_eq_some_iff.1 hthird
        rw [if_pos (hbyte.2 hthird)]
        exact hclosed rfl _ more
      · rw [if_neg (mt hbyte.1 hthird)]
        split
        · exact absurd rfl hthird
        · exact .throw source _
    · rw [if_neg hbraces, if_neg (show ¬ s.cursor.delimiters.closing = _ from hbraces)]
      by_cases hname : (Text.trim s.buffer).getLast? = some '\x7d'
      · rw [if_pos hname, if_pos hname]
        exact hclosed rfl _ more
      · rw [if_neg hname, if_neg hname]
        exact .throw source _
  · rw [if_neg htriple, if_neg htriple]
    exact hclosed rfl _ more

/-! ### In a tag -/

/-- Behind a tag with a name the same delimiters are in force, and what is left follows
the closing delimiter. -/
theorem readNamed_next {start : Cursor} {kind : TokenKind} {offset : Nat} {step : Step}
    (hcut : cutAt? start.closing cs = some (inside, more))
    (h : readNamed start kind offset cs = .ok step) :
    step.next.delimiters = start.delimiters ∧ step.rest <:+ more := by
  cases named_of_readNamed h with
  | plain hcut' | braceInside hcut' =>
    obtain ⟨rfl, rfl⟩ := Prod.mk.inj (Option.some.inj (hcut.symm.trans hcut'))
    exact ⟨rfl, List.suffix_rfl⟩
  | braceBehind hcut' =>
    obtain ⟨rfl, rfl⟩ := Prod.mk.inj (Option.some.inj (hcut.symm.trans hcut'))
    exact ⟨rfl, List.suffix_cons _ _⟩

/-- A suffix of a text has no more bytes. -/
theorem byteLength_le_of_suffix (h : rest <:+ more) : byteLength rest ≤ byteLength more := by
  obtain ⟨front, rfl⟩ := h
  rw [byteLength_append]
  exact Nat.le_add_left _ _

theorem due_of_inTag (hmode : s.mode = .inTag) (rest : List Char) :
    s.due rest = goOn s.tokens
      (readNamed s.cursor s.kind (s.place - byteLength s.buffer) (s.buffer ++ rest)) := by
  rw [State.due, hmode]

/-- **One more character of a tag.** -/
theorem sane_take (h : Sane source s (c :: rest)) (hmode : s.mode = .inTag)
    (hclosing : after? s.closing (c :: rest) = none) :
    Sane source (s.take c) rest ∧ (s.take c).due rest = s.due (c :: rest) := by
  obtain ⟨hpragma, hcut⟩ := h.inTag hmode
  have hbuffer : (s.take c).buffer ++ rest = s.buffer ++ c :: rest := by
    rw [State.take, List.append_assoc, List.singleton_append]
  refine ⟨⟨h.accepted, h.text_take, fun hs => absurd (hmode.symm.trans hs) nofun,
    fun _ => ⟨hpragma, ?_⟩⟩, ?_⟩
  · rw [hbuffer]
    refine hcut.trans ?_
    rw [Text.cutAt?_further hclosing, Option.map_map]
    simp only [Function.comp_def, State.take, List.append_assoc, List.singleton_append]
    rfl
  · have hoffset : (s.take c).place - byteLength (s.take c).buffer =
        s.place - byteLength s.buffer := by
      rw [State.take, byteLength_append, byteLength_cons]
      exact Nat.add_sub_add_right _ _ _
    rw [due_of_inTag hmode, due_of_inTag (s := s.take c) hmode, hbuffer, hoffset]
    rfl

theorem advances_inTag (h : Sane source s rest) (hmode : s.mode = .inTag) (hne : rest ≠ []) :
    Advances source s rest := by
  obtain ⟨before, htext, hplace⟩ := h.exists_before
  have hbehind := gives_behind htext
  rw [hplace] at hbehind
  have hstep : step source s = stepTag source s := by rw [step, hmode]
  -- a character of the tag is taken, or the tag ends here
  cases hclosing : after? s.closing rest with
  | none =>
    obtain ⟨c, r, rfl⟩ := List.exists_cons_of_ne_nil hne
    obtain ⟨hsane, hdue⟩ := sane_take h hmode hclosing
    have hchar := gives_nextChar htext
    rw [hplace] at hchar
    refine .inl ⟨s.take c, r, ?_, hsane, h.left_take hsane, hdue⟩
    rw [hstep]
    refine hbehind.bind ?_
    rw [hclosing]
    exact hchar.bind (.pure source _)
  | some more =>
    obtain ⟨hpragma, hcut⟩ := h.inTag hmode
    obtain ⟨start, hstart, hoffset⟩ := h.text
    obtain rfl := Text.after?_eq_some hclosing
    rw [Text.cutAt?_here hclosing, Option.map_some, List.append_nil] at hcut
    dsimp only at hcut
    have hgives := gives_stepClosing hpragma hoffset hcut htext hplace
    have hdue := due_of_inTag hmode (s.closing ++ more)
    rw [← hoffset, Nat.add_sub_cancel] at hdue
    refine advances_of_read h ?_ rfl hdue hstart fun step hread => ?_
    · rw [hstep]
      refine hbehind.bind ?_
      rw [hclosing]
      exact hgives
    · have hends : cutAt? s.cursor.closing (s.buffer ++ (s.closing ++ more)) =
          some (s.buffer, more) := hcut
      obtain ⟨hdelimiters, hrest⟩ := readNamed_next hends hread
      obtain ⟨segment, hsegment, htakes⟩ := takes_readNamed hread
      refine ⟨hdelimiters ▸ h.accepted, ⟨segment, hsegment, htakes.offset⟩, ?_⟩
      have hpos : 0 < byteLength s.closing := Text.byteLength_pos h.accepted.ne_nil.2
      have hle := byteLength_le_of_suffix hrest
      rw [byteLength_append]
      omega

/-! ### Where a tag begins -/

/-- A sigil is one byte. -/
theorem utf8Size_of_sigil {kind : TokenKind} (h : TokenKind.ofSigil? c = some kind) :
    c.utf8Size = 1 := by
  unfold TokenKind.ofSigil? at h
  split_ifs at h <;> subst_vars <;> decide

/-- A tag with a name is begun. -/
theorem advances_enter {kind : TokenKind} {place : Nat} (h : Sane source s rest)
    (hbuffer : s.buffer = []) (hgives : Gives source (step source s) (.ok (s.enter kind place)))
    (htext : source.toList = before ++ cs) (hplace : byteLength before = place)
    (hlt : byteLength cs < byteLength rest) (hkind : kind ≠ .pragma)
    (hdue : s.due rest = goOn s.tokens (readNamed s.cursor kind place cs)) :
    Advances source s rest := by
  have hentered : (s.enter kind place).buffer = [] := hbuffer
  have hsane : Sane source (s.enter kind place) cs := by
    refine ⟨h.accepted, ⟨before, ?_, ?_⟩, nofun, fun _ => ⟨hkind, ?_⟩⟩
    · rw [hentered, htext]
      rfl
    · rw [hentered, hplace]
      rfl
    · rw [hentered]
      exact (Option.map_id' (x := cutAt? s.closing cs)).symm
  refine .inl ⟨s.enter kind place, cs, hgives, hsane, h.left_lt hsane hlt, ?_⟩
  rw [hdue, due_of_inTag rfl, hentered]
  rfl

/-- A tag is read at once. -/
theorem advances_of_token (h : Sane source s rest) (hmode : s.mode = .inTagType)
    (hgives : Gives source (step source s) (t.answer (readToken s.cursor rest)))
    (htokens : t.tokens = s.tokens) : Advances source s rest := by
  obtain ⟨-, hstart, inside, hrest⟩ := h.inTagType hmode
  obtain ⟨before, htext, hplace⟩ := h.exists_before
  have hopening : s.cursor.opening ≠ [] := h.accepted.ne_nil.1
  have hne : rest ≠ [] := hrest ▸ List.append_ne_nil_of_left_ne_nil hopening inside
  have hdue : s.due rest = goOn s.tokens (readToken s.cursor rest) := by rw [State.due, hmode]
  refine advances_of_read h hgives htokens hdue htext fun step hread => ?_
  have hclosing : s.cursor.closing ≠ [] := h.accepted.ne_nil.2
  obtain ⟨segment, hsegment, htile⟩ := exists_tile hne hclosing hread
  refine ⟨(readToken_accepted hread h.accepted).2, ⟨segment, hsegment, ?_⟩, ?_⟩
  · rw [htile.offset_eq, hplace, ← hstart]
    rfl
  · have hpos := Text.byteLength_pos (htile.ne_nil hopening)
    rw [hsegment, byteLength_append]
    omega

/-- **A tag of some kind** advances the loop from behind its sigil. -/
theorem advances_kind {kind : TokenKind} (h : Sane source s rest) (hmode : s.mode = .inTagType)
    (hstep : ∀ result, Gives source (stepKind source s kind (byteLength before)) result →
      Gives source (step source s) result)
    (htoken : readToken s.cursor rest = readerOf kind s.cursor (byteLength before) cs)
    (htext : source.toList = before ++ cs) (hlt : byteLength cs < byteLength rest) :
    Advances source s rest := by
  obtain ⟨hbuffer, -, -⟩ := h.inTagType hmode
  by_cases hdelimiters : kind = .delimiterTag
  · subst hdelimiters
    exact advances_of_token (t := { s with kind := .delimiterTag }) h hmode
      (htoken ▸ hstep _ (gives_stepDelimiters hbuffer rfl htext)) rfl
  · by_cases hpragma : kind = .pragma
    · subst hpragma
      exact advances_of_token (t := { s with kind := .pragma }) h hmode
        (htoken ▸ hstep _ (gives_stepPragma hbuffer rfl htext)) rfl
    · have hkind : stepKind source s kind = fun place => pure (s.enter kind place) := by
        funext place
        unfold stepKind
        split <;> first | contradiction | rfl
      have hdue : s.due rest =
          goOn s.tokens (readNamed s.cursor kind (byteLength before) cs) := by
        rw [State.due, hmode]
        dsimp only
        rw [htoken, readerOf_named hdelimiters hpragma]
      refine advances_enter h hbuffer (hstep _ ?_) htext rfl hlt hpragma hdue
      rw [hkind]
      exact .pure source _

/-- **What stands behind an opening delimiter** decides alike for the scanner and for the
loop. -/
theorem exists_sigil (source : String) (s : State) (inside : List Char) (place : Nat) :
    ∃ sigil cs kind, inside = sigil ++ cs ∧
      readTag s.cursor inside = readerOf kind s.cursor
        (s.cursor.offset + byteLength s.cursor.opening + byteLength sigil) cs ∧
      stepSigil source s inside place = stepKind source s kind (place + byteLength sigil) := by
  cases inside with
  | nil => exact ⟨[], [], .escaped, rfl, rfl, rfl⟩
  | cons c r =>
    have hhead : (c :: r).head?.bind TokenKind.ofSigil? = TokenKind.ofSigil? c := rfl
    cases hsigil : TokenKind.ofSigil? c with
    | none =>
      have hstep : stepSigil source s (c :: r) place = stepKind source s .escaped place := by
        rw [stepSigil, hhead, hsigil]
      exact ⟨[], c :: r, .escaped, rfl, (Announces.plain hsigil).readTag_eq s.cursor, hstep⟩
    | some kind =>
      have hstep : stepSigil source s (c :: r) place = stepKind source s kind (place + 1) := by
        rw [stepSigil, hhead, hsigil]
      have hone : byteLength [c] = 1 := by
        rw [byteLength_cons, utf8Size_of_sigil hsigil]
        rfl
      refine ⟨[c], r, kind, rfl, (Announces.sigil hsigil).readTag_eq s.cursor, ?_⟩
      rw [hstep, hone]

theorem advances_inTagType (h : Sane source s rest) (hmode : s.mode = .inTagType) :
    Advances source s rest := by
  obtain ⟨-, hstart, inside, rfl⟩ := h.inTagType hmode
  obtain ⟨before, htext, hplace⟩ := h.exists_before
  have hopening : s.cursor.opening ≠ [] := h.accepted.ne_nil.1
  have hpos : 0 < byteLength s.opening := Text.byteLength_pos hopening
  have hbehind := gives_behind (u := before ++ s.opening) (v := inside)
    (by rw [htext, List.append_assoc])
  obtain ⟨sigil, cs, kind, rfl, hread, hsigil⟩ :=
    exists_sigil source s inside (byteLength (before ++ s.opening))
  -- the place behind the sigil
  have htext' : source.toList = (before ++ s.opening ++ sigil) ++ cs := by
    rw [htext, List.append_assoc, List.append_assoc]
  have hplace' : s.cursor.offset + byteLength s.cursor.opening + byteLength sigil =
      byteLength (before ++ s.opening ++ sigil) := by
    rw [byteLength_append, byteLength_append, hplace, ← hstart]
    rfl
  rw [hplace'] at hread
  rw [← byteLength_append] at hsigil
  have hstep : ∀ result,
      Gives source (stepKind source s kind (byteLength (before ++ s.opening ++ sigil))) result →
        Gives source (step source s) result := by
    intro result hresult
    rw [step, hmode]
    refine Gives.bind (a := sigil ++ cs) ?_ ?_
    · rw [← hplace, ← byteLength_append]
      exact hbehind
    · rw [← hplace, ← byteLength_append, hsigil]
      exact hresult
  refine advances_kind h hmode hstep ((readToken_opening hopening _).trans hread) htext' ?_
  rw [byteLength_append, byteLength_append]
  omega

/-! ## The whole loop -/

/-- **Every iteration does its work.** -/
theorem advances (h : Sane source s rest) (hne : rest ≠ []) : Advances source s rest := by
  cases hmode : s.mode with
  | inText => exact advances_inText h hmode hne
  | inTagType => exact advances_inTagType h hmode
  | inTag => exact advances_inTag h hmode hne

/-- At the end of the text the loop gives what it owes. -/
theorem finish_eq (h : Sane source s []) : s.finish = (s.due []).mapError .failed := by
  unfold State.finish
  cases hmode : s.mode with
  | inText =>
    have hchunk : chunk s.opening [] = ([], []) := rfl
    rw [if_pos rfl, due_of_chunk hmode hchunk, List.append_nil, onward_nil]
    rfl
  | inTagType =>
    obtain ⟨-, -, inside, hinside⟩ := h.inTagType hmode
    exact absurd (List.append_eq_nil_iff.1 hinside.symm).1 h.accepted.ne_nil.1
  | inTag =>
    obtain ⟨-, hcut⟩ := h.inTag hmode
    have hclosing : s.closing ≠ [] := h.accepted.ne_nil.2
    rw [cutAt?, if_neg (by simpa using hclosing)] at hcut
    have hread : cutAt? s.cursor.closing (s.buffer ++ []) = none := hcut
    rw [if_neg (by decide), due_of_inTag hmode, readNamed, hread, List.append_nil]
    rfl

theorem sane_start {d : Delimiters} (hd : d.Accepted) (source : String) :
    Sane source (start d) source.toList :=
  .of_inText hd ⟨[], rfl, rfl⟩ rfl

/-- At first everything is due. -/
theorem due_start (d : Delimiters) (source : String) :
    (start d).due source.toList = Token.scan d source := by
  have hhoist : hoistInto [] = hoistPragmas := by
    funext ts
    rw [hoistInto, hoistPragmas, List.nil_append]
  rw [due_of_fresh rfl rfl]
  change (tokensFrom ⟨0, 0, d⟩ source.toList).map (hoistInto []) = _
  rw [hhoist]
  rfl

/-- What holds at first holds wherever the loop comes. -/
theorem Reached.exists_sane {d : Delimiters} (hd : d.Accepted) (h : Reached source d s) :
    ∃ rest, Sane source s rest := by
  induction h with
  | start => exact ⟨_, sane_start hd source⟩
  | @next s s' _ hplace hiterate ih =>
    obtain ⟨rest, hsane⟩ := ih
    obtain ⟨next, rest', hgives, hsane', -⟩ | ⟨e, hgives, -⟩ :=
      advances hsane (hsane.place_lt_iff.1 hplace)
    · obtain rfl : s' = next := Except.ok.inj (hiterate.symm.trans hgives.iterate_eq)
      exact ⟨rest', hsane'⟩
    · have herror := hiterate.symm.trans hgives.iterate_eq
      cases herror

/-- **The loop ends with what it owes.** The induction is on what is left. -/
theorem Sane.loops (h : Sane source s rest) :
    Loops source s ((s.due rest).mapError .failed) := by
  induction hleft : left source s using WellFoundedLT.induction generalizing s rest with
  | ind n ih =>
    by_cases hne : rest = []
    · subst hne
      rw [← finish_eq h]
      exact .done (by rw [h.length_eq]; rfl)
    · have hplace := h.place_lt_iff.2 hne
      obtain ⟨s', rest', hgives, hsane, hlt, hdue⟩ | ⟨e, hgives, hdue⟩ := advances h hne
      · rw [← hdue]
        exact .next hplace hgives.iterate_eq (ih _ (hleft ▸ hlt) hsane rfl)
      · rw [hdue]
        exact .halted hplace hgives.iterate_eq

/-- The loop has one result. -/
theorem Loops.unique {result result' : Except Halt (List Token)} (h : Loops source s result)
    (h' : Loops source s result') : result = result' := by
  induction h with
  | done hend =>
    cases h' with
    | done => rfl
    | halted hplace | next hplace => exact absurd hplace (Nat.not_lt.2 hend)
  | halted hplace hiterate =>
    cases h' with
    | done hend => exact absurd hplace (Nat.not_lt.2 hend)
    | halted _ hiterate' =>
      exact congrArg Except.error (Except.error.inj (hiterate.symm.trans hiterate'))
    | next _ hiterate' => cases hiterate.symm.trans hiterate'
  | next hplace hiterate _ ih =>
    cases h' with
    | done hend => exact absurd hplace (Nat.not_lt.2 hend)
    | halted _ hiterate' => cases hiterate.symm.trans hiterate'
    | next _ hiterate' hmore =>
      obtain rfl := Except.ok.inj (hiterate.symm.trans hiterate')
      exact ih hmore

end Iterations

/-- **A state in which the loop is safe.** -/
structure Safe (source : String) (s : State) : Prop where
  /-- Both delimiters have characters, and no white space. -/
  ne_nil : s.opening ≠ [] ∧ s.closing ≠ []
  not_blank : ∀ c ∈ s.opening ++ s.closing, Text.isBlank c = false
  /-- The place is one between characters. -/
  boundary : Boundary source.toList s.place
  place_le : s.place ≤ length source
  /-- Where a tag begins its opening delimiter stands at the place. -/
  opened : s.mode = .inTagType →
    ∃ before inside, source.toList = before ++ (s.opening ++ inside) ∧ byteLength before = s.place
  /-- The slices that an iteration takes are slices of the text, so it does not end for
  want of one. -/
  slices : s.place < length source → ∀ bounds ∈ slices source s, IsSlice source bounds
  inside : s.place < length source → iterate source s ≠ .error .outside
  /-- An iteration comes closer to the end. -/
  left_lt : s.place < length source → ∀ s', iterate source s = .ok s' →
    left source s' < left source s

theorem Sane.safe {source : String} {s : State} {rest : List Char} (h : Sane source s rest) :
    Safe source s := by
  obtain ⟨before, htext, hplace⟩ := h.exists_before
  have hboundary : Boundary source.toList s.place := ⟨before, rest, htext, hplace⟩
  have hadvances (hlt : s.place < length source) : Advances source s rest :=
    advances h (h.place_lt_iff.1 hlt)
  refine ⟨h.accepted.ne_nil, fun c hc => h.accepted.isBlank_eq_false (List.mem_append.1 hc),
    hboundary, hboundary.le, fun hmode => ?_, fun hlt => ?_, fun hlt => ?_,
    fun hlt s' hiterate => ?_⟩
  · obtain ⟨-, -, inside, rfl⟩ := h.inTagType hmode
    exact ⟨before, inside, htext, hplace⟩
  · obtain ⟨s', rest', hgives, -⟩ | ⟨e, hgives, -⟩ := hadvances hlt
    · exact hgives.slices
    · exact hgives.slices
  · intro houtside
    obtain ⟨s', rest', hgives, -⟩ | ⟨e, hgives, -⟩ := hadvances hlt
    · cases houtside.symm.trans hgives.iterate_eq
    · cases houtside.symm.trans hgives.iterate_eq
  · obtain ⟨next, rest', hgives, -, hleft, -⟩ | ⟨e, hgives, -⟩ := hadvances hlt
    · obtain rfl := Except.ok.inj (hiterate.symm.trans hgives.iterate_eq)
      exact hleft
    · cases hiterate.symm.trans hgives.iterate_eq

/-- **The loop is safe and ends.** From accepted delimiters every state that it comes to is
safe, so it never ends for want of a slice; and it gives what the scanner gives, and
nothing else. -/
theorem loop_safe {d : Delimiters} (hd : d.Accepted) (source : String) :
    (∀ s, Reached source d s → Safe source s) ∧
      ∀ result, Loops source (start d) result ↔
        result = (Token.scan d source).mapError .failed := by
  constructor
  · intro s hreached
    obtain ⟨rest, hsane⟩ := hreached.exists_sane hd
    exact hsane.safe
  · intro result
    have hloops := (sane_start hd source).loops
    rw [due_start] at hloops
    constructor
    · exact fun h => h.unique hloops
    · rintro rfl
      exact hloops

/-- Delimiters of characters of two bytes. -/
def accented : Delimiters := ⟨"«é", "é»"⟩

/-- Such characters around tags and behind sigils, and other delimiters further on. -/
def accents : String := "ü«é#ä é»\n«é=<% %> =é»<%/ä%>"

theorem loop_safe_of_accents :
    accented.Accepted ∧ (∀ s, Reached accents accented s → Safe accents s) ∧
      ∃ ts, Loops accents (start accented) (.ok ts) ∧
        (ts.map fun t => (t.kind, t.offset?)) =
          [(.text, none), (.sectionTag, some 14), (.text, none), (.delimiterTag, none),
            (.closingTag, some 31)] := by
  have haccepted : accented.Accepted := ⟨"«é é»", by decide⟩
  have htokens : ((Token.scan accented accents).toOption.map
      (List.map fun t => (t.kind, t.offset?))) =
        some [(.text, none), (.sectionTag, some 14), (.text, none), (.delimiterTag, none),
          (.closingTag, some 31)] := by decide +kernel
  obtain ⟨ts, hscan, hmap⟩ := exists_of_toOption_map htokens
  obtain ⟨hsafe, hloops⟩ := loop_safe haccepted accents
  refine ⟨haccepted, hsafe, ts, (hloops _).2 ?_, hmap⟩
  rw [hscan]
  rfl

end Loop

end Scan

end Mustache
