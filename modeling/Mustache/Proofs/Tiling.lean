import Mustache.Proofs.Segments
/-!
# Mustache — the scanner tiles the text

A text that scans is a row of segments, one for each token in the order of
the text, and no byte is left out or read twice. `Tile` says which segments
give which tokens, kind by kind: a piece of text is its own segment, and a
tag goes from its opening delimiter to the first closing delimiter after its
sigil. `Tiles` puts them in a row, each with the delimiters that are in force
where it begins.

Reading a token and laying a tile are the same (`Tile.readToken_eq` and
`exists_tile`), so that what scans is what can be tiled
(`scan_eq_ok_iff_tiles`). A row of tiles may be cut between any two of them,
and what lies between two cuts may be laid elsewhere (`Tiles.moved`).
-/

namespace Mustache

namespace Text

/-- **A pattern that follows a text stands there first**: no earlier one
overlaps the two. -/
def FirstAfter (pattern inside : List Char) : Prop :=
  ∀ u v, inside ++ pattern = u ++ (pattern ++ v) → v = []

section Cut

variable {pattern cs inside rest : List Char}

theorem FirstAfter.nil : FirstAfter pattern [] := by
  intro u v h
  have hlen := congrArg List.length h
  simp only [List.nil_append, List.length_append] at hlen
  exact List.length_eq_zero_iff.1 (by omega)

theorem FirstAfter.tail {c : Char} (h : FirstAfter pattern (c :: inside)) :
    FirstAfter pattern inside :=
  fun u v heq => h (c :: u) v (congrArg (c :: ·) heq)

/-- Such a pattern does not begin where the text does. -/
theorem FirstAfter.after?_eq_none {c : Char} (h : FirstAfter pattern (c :: inside))
    (rest : List Char) : after? pattern ((c :: inside ++ pattern) ++ rest) = none := by
  have hlen : pattern.length ≤ (c :: inside ++ pattern).length := by
    rw [List.length_append]
    exact Nat.le_add_left _ _
  suffices hnone : after? pattern (c :: inside ++ pattern ++ []) = none from
    after?_eq_none_append hlen hnone rest
  cases hafter : after? pattern (c :: inside ++ pattern ++ []) with
  | none => rfl
  | some v =>
    rw [List.append_nil] at hafter
    have heq := after?_eq_some hafter
    have hv := h [] v heq
    have hlen := congrArg List.length heq
    simp only [hv, List.append_nil, List.length_append, List.length_cons] at hlen
    omega

/-- **A text is cut at the first place where the pattern stands.** -/
theorem cutAt?_eq_some_iff : cutAt? pattern cs = some (inside, rest) ↔
    cs = inside ++ (pattern ++ rest) ∧ FirstAfter pattern inside := by
  constructor
  · intro h
    refine ⟨by rw [cutAt?_eq_some h, List.append_assoc], ?_⟩
    induction inside generalizing cs with
    | nil => exact .nil
    | cons c inside ih =>
      have hcs := cutAt?_eq_some h
      rw [List.cons_append, List.cons_append] at hcs
      subst hcs
      rw [cutAt?] at h
      split at h
      · cases h
      · next hnone =>
        obtain ⟨⟨before, after⟩, hcut, heq⟩ := Option.map_eq_some_iff.1 h
        obtain ⟨rfl, rfl⟩ : before = inside ∧ after = rest := by simpa using heq
        intro u v heq
        cases u with
        | nil =>
          -- the pattern would have been found at once
          have hhere : c :: (before ++ pattern ++ after) = pattern ++ (v ++ after) := by
            rw [← List.append_assoc, ← List.nil_append (pattern ++ v), ← heq]
            rfl
          rw [hhere, after?_append] at hnone
          cases hnone
        | cons d u => exact ih hcut u v (List.cons.inj heq).2
  · rintro ⟨rfl, hfirst⟩
    induction inside with
    | nil =>
      cases hcs : pattern ++ rest with
      | nil =>
        obtain ⟨rfl, rfl⟩ := List.append_eq_nil_iff.1 hcs
        rfl
      | cons c r =>
        rw [List.nil_append, cutAt?, ← hcs, after?_append]
    | cons c inside ih =>
      have hnone := hfirst.after?_eq_none rest
      rw [List.append_assoc, List.cons_append] at hnone
      rw [List.cons_append, cutAt?, hnone, ih hfirst.tail]
      rfl

end Cut

end Text

namespace Scan

open Text (byteLength byteLength_append FirstAfter)

/-! ## What a tag begins with -/

/-- **What announces a kind of tag** after the opening delimiter: a sigil, or
that what follows is none. -/
inductive Announces : (sigil after : List Char) → TokenKind → Prop
  | sigil {c : Char} {after : List Char} {kind : TokenKind} :
      TokenKind.ofSigil? c = some kind → Announces [c] after kind
  | plain {c : Char} {after : List Char} :
      TokenKind.ofSigil? c = none → Announces [] (c :: after) .escaped

namespace Announces

variable {sigil after : List Char} {kind : TokenKind}

theorem append (h : Announces sigil after kind) (rest : List Char) :
    Announces sigil (after ++ rest) kind := by
  cases h with
  | sigil h => exact .sigil h
  | plain h => exact .plain h

theorem of_append {rest : List Char} (h : Announces sigil (after ++ rest) kind)
    (hne : after ≠ []) : Announces sigil after kind := by
  obtain ⟨d, after, rfl⟩ := List.exists_cons_of_ne_nil hne
  generalize hcs : d :: after ++ rest = cs at h
  cases h with
  | sigil h => exact .sigil h
  | plain h =>
    obtain ⟨rfl, -⟩ := List.cons.inj hcs
    exact .plain h

/-- No text is announced. -/
theorem ne_text (h : Announces sigil after kind) : kind ≠ .text := by
  cases h with
  | sigil hkind => exact (ofSigil?_ne hkind).1
  | plain _ => exact nofun

end Announces

/-- No tag begins with white space. -/
theorem opened?_blank {d : Delimiters} (hd : d.Accepted) {c : Char} (hc : Text.isBlank c = true)
    (cs : List Char) : opened? d.opening.toList (c :: cs) = none := by
  have hopening := (hd.not_blank hc).1
  obtain ⟨o, os, ho⟩ := List.exists_cons_of_ne_nil hd.ne_nil.1
  rw [ho] at hopening ⊢
  have hother : o ≠ c := fun heq => hopening (heq ▸ List.mem_cons_self)
  simp [opened?, Text.after?, hother]

/-- What reads a tag of some kind from what follows its sigil. -/
def readerOf : TokenKind → Reader
  | .delimiterTag => readDelimiters
  | .pragma => readPragma
  | kind => fun start => readNamed start kind

theorem readerOf_named {kind : TokenKind} (hdelimiters : kind ≠ .delimiterTag)
    (hpragma : kind ≠ .pragma) : readerOf kind = fun start => readNamed start kind := by
  unfold readerOf
  split <;> first | contradiction | rfl

theorem Announces.readTag_eq {sigil after : List Char} {kind : TokenKind}
    (h : Announces sigil after kind) (start : Cursor) :
    readTag start (sigil ++ after) =
      readerOf kind start (start.offset + byteLength start.opening + byteLength sigil) after := by
  cases h with
  | @sigil c after kind hsigil =>
    have hlen : byteLength [c] = c.utf8Size := by
      rw [Text.byteLength_cons]
      rfl
    rw [List.singleton_append, hlen, readTag, hsigil]
    cases kind <;> rfl
  | plain hplain =>
    rw [List.nil_append, readTag, hplain]
    rfl

/-- Something announces each tag. -/
theorem exists_announces (c : Char) (r : List Char) :
    ∃ sigil after kind, c :: r = sigil ++ after ∧ Announces sigil after kind := by
  cases hsigil : TokenKind.ofSigil? c with
  | none => exact ⟨[], c :: r, .escaped, rfl, .plain hsigil⟩
  | some kind => exact ⟨[c], r, kind, rfl, .sigil hsigil⟩

/-! ## Tiles -/

namespace Cursor

/-- Where scanning goes on after a segment. -/
def past (c : Cursor) (segment : List Char) : Cursor :=
  { c with offset := c.offset + byteLength segment }

/-- A tag as it stands in the text. -/
def tag (c : Cursor) (sigil inside closing : List Char) : List Char :=
  c.opening ++ (sigil ++ (inside ++ closing))

end Cursor

/-- **A segment of the text, with what follows it, and the token that is read
off it.** -/
inductive Tile (start : Cursor) : (segment rest : List Char) → Token → Cursor → Prop
  /-- A piece of text is its own segment, as far as it goes (`TextSegment`). -/
  | text {piece rest : List Char} (hne : piece ≠ [])
      (hpiece : TextSegment start.opening piece rest) :
      Tile start piece rest (.ofText (String.ofList piece) start.line)
        { start.past piece with
          line := start.line + if piece.getLast? = some '\n' then 1 else 0 }
  /-- A named tag. Its name is the trimmed inside, and its offset is where the
  segment ends, or where it begins if it is a closing tag. -/
  | named {sigil inside segment rest : List Char} {kind : TokenKind}
      (hsegment : segment = start.tag sigil inside start.closing)
      (hsigil : Announces sigil (inside ++ start.closing) kind)
      (hkind : kind ≠ .tripleBrace ∧ kind ≠ .delimiterTag ∧ kind ≠ .pragma)
      (hfirst : FirstAfter start.closing inside) :
      Tile start segment rest
        (tagToken start kind (Text.trim inside)
          (if kind = .closingTag then start.offset else (start.past segment).offset))
        (start.past segment)
  /-- A tag in triple braces where two braces close: the third one follows the
  closing delimiter, and the offset is right before it. -/
  | triple {sigil inside segment rest : List Char}
      (hclosing : start.delimiters.closing = Delimiters.standard.closing)
      (hsegment : segment = start.tag sigil inside start.closing ++ ['\x7d'])
      (hsigil : Announces sigil (inside ++ start.closing) .tripleBrace)
      (hfirst : FirstAfter start.closing inside) :
      Tile start segment rest
        (tagToken start .tripleBrace (Text.trim inside) ((start.past segment).offset - 1))
        (start.past segment)
  /-- A tag in triple braces where something else closes: the third one ends
  the inside. -/
  | tripleInside {sigil inside name segment rest : List Char}
      (hclosing : start.delimiters.closing ≠ Delimiters.standard.closing)
      (hsegment : segment = start.tag sigil inside start.closing)
      (hsigil : Announces sigil (inside ++ start.closing) .tripleBrace)
      (hfirst : FirstAfter start.closing inside)
      (hname : Text.trim inside = name ++ ['\x7d']) :
      Tile start segment rest
        (tagToken start .tripleBrace (Text.trim name) (start.past segment).offset)
        (start.past segment)
  /-- A set-delimiter tag ends with the first `=` that a closing delimiter
  follows. What its inside names is in force after it. -/
  | delimiters {sigil inside segment rest : List Char} {d : Delimiters}
      (hsegment : segment = start.tag sigil inside ('=' :: start.closing))
      (hsigil : Announces sigil (inside ++ '=' :: start.closing) .delimiterTag)
      (hfirst : FirstAfter ('=' :: start.closing) inside)
      (hspec : Delimiters.ofText? (String.ofList (Text.trim inside)) = some d) :
      Tile start segment rest (.bare .delimiterTag start.line)
        { start.past segment with delimiters := d }
  /-- A pragma tag. -/
  | pragma {sigil inside segment rest : List Char}
      (hsegment : segment = start.tag sigil inside start.closing)
      (hsigil : Announces sigil (inside ++ start.closing) .pragma)
      (hfirst : FirstAfter start.closing inside) :
      Tile start segment rest (.ofTag .pragma (String.ofList (Text.trim inside)) 0)
        (start.past segment)

/-- **A row of tiles**: each begins where the one before it ends, with the
delimiters that are in force there. -/
inductive Tiles : Cursor → List (List Char) → List Char → List Token → Cursor → Prop
  | nil (start : Cursor) (rest : List Char) : Tiles start [] rest [] start
  | cons {start next stop : Cursor} {segment rest : List Char} {segments : List (List Char)}
      {t : Token} {ts : List Token} :
      Tile start segment (segments.flatten ++ rest) t next → Tiles next segments rest ts stop →
      Tiles start (segment :: segments) rest (t :: ts) stop

/-! ## A token that is read is a tile -/

section Read

variable {start : Cursor} {sigil cs : List Char} {kind : TokenKind} {step : Step}

theorem past_tag_offset (start : Cursor) (sigil inside closing : List Char) :
    (start.past (start.tag sigil inside closing)).offset =
      start.offset + byteLength start.opening + byteLength sigil + byteLength inside +
        byteLength closing := by
  simp only [Cursor.past, Cursor.tag, byteLength_append]
  omega

theorem past_brace_offset (start : Cursor) (segment : List Char) :
    (start.past (segment ++ ['\x7d'])).offset = (start.past segment).offset + 1 := by
  simp only [Cursor.past, byteLength_append]
  rw [show byteLength ['\x7d'] = 1 by decide, Nat.add_assoc]

/-- A tag with a name. -/
theorem tile_readNamed (hsigil : Announces sigil cs kind) (hclosing : start.closing ≠ [])
    (hkind : kind ≠ .delimiterTag ∧ kind ≠ .pragma)
    (h : readNamed start kind (start.offset + byteLength start.opening + byteLength sigil) cs =
      .ok step) :
    ∃ segment, start.opening ++ (sigil ++ cs) = segment ++ step.rest ∧
      Tile start segment step.rest step.token step.next := by
  have htext (inside rest : List Char) :
      start.opening ++ (sigil ++ (inside ++ (start.closing ++ rest))) =
        start.tag sigil inside start.closing ++ rest := by
    simp only [Cursor.tag, List.append_assoc]
  have hinside {inside rest : List Char} {kind : TokenKind}
      (hsigil : Announces sigil (inside ++ (start.closing ++ rest)) kind) :
      Announces sigil (inside ++ start.closing) kind := by
    rw [← List.append_assoc] at hsigil
    exact hsigil.of_append (List.append_ne_nil_of_right_ne_nil inside hclosing)
  cases named_of_readNamed h with
  | @plain inside rest hcut htriple =>
    obtain ⟨rfl, hfirst⟩ := Text.cutAt?_eq_some_iff.1 hcut
    rw [← past_tag_offset start sigil inside start.closing]
    exact ⟨_, htext inside rest, .named rfl (hinside hsigil) ⟨htriple, hkind⟩ hfirst⟩
  | @braceBehind inside rest hcut htriple hbraces =>
    subst htriple
    obtain ⟨rfl, hfirst⟩ := Text.cutAt?_eq_some_iff.1 hcut
    -- the third brace follows and belongs to the segment
    refine ⟨start.tag sigil inside start.closing ++ ['\x7d'], by simp [htext], ?_⟩
    have hpast := past_brace_offset start (start.tag sigil inside start.closing)
    have hplace := Nat.sub_eq_of_eq_add hpast
    have htile := @Tile.triple start sigil inside _ rest hbraces rfl (hinside hsigil) hfirst
    rw [hplace] at htile
    rw [← past_tag_offset start sigil inside start.closing, ← hpast]
    exact htile
  | @braceInside inside rest hcut htriple hbraces hbrace =>
    subst htriple
    obtain ⟨rfl, hfirst⟩ := Text.cutAt?_eq_some_iff.1 hcut
    have hname : Text.trim inside = (Text.trim inside).dropLast ++ ['\x7d'] :=
      (List.dropLast_append_getLast? _ hbrace).symm
    rw [← past_tag_offset start sigil inside start.closing]
    exact ⟨_, htext inside rest, .tripleInside hbraces rfl (hinside hsigil) hfirst hname⟩

theorem tile_readDelimiters (hsigil : Announces sigil cs .delimiterTag)
    (h : readDelimiters start (start.offset + byteLength start.opening + byteLength sigil) cs =
      .ok step) :
    ∃ segment, start.opening ++ (sigil ++ cs) = segment ++ step.rest ∧
      Tile start segment step.rest step.token step.next := by
  unfold readDelimiters at h
  split at h
  · cases h
  · next inside rest hcut =>
    obtain ⟨rfl, hfirst⟩ := Text.cutAt?_eq_some_iff.1 hcut
    rw [← List.append_assoc] at hsigil
    replace hsigil := hsigil.of_append (List.append_ne_nil_of_right_ne_nil inside nofun)
    dsimp only at h
    rw [← past_tag_offset start sigil inside] at h
    split at h
    · cases h
    · next d hspec =>
      cases h
      refine ⟨start.tag sigil inside ('=' :: start.closing), ?_, ?_⟩
      · simp only [Cursor.tag, List.append_assoc]
      · exact .delimiters rfl hsigil hfirst hspec

theorem tile_readPragma (hsigil : Announces sigil cs .pragma) (hclosing : start.closing ≠ [])
    (h : readPragma start (start.offset + byteLength start.opening + byteLength sigil) cs =
      .ok step) :
    ∃ segment, start.opening ++ (sigil ++ cs) = segment ++ step.rest ∧
      Tile start segment step.rest step.token step.next := by
  unfold readPragma at h
  split at h
  · cases h
  · next inside rest hcut =>
    obtain ⟨rfl, hfirst⟩ := Text.cutAt?_eq_some_iff.1 hcut
    rw [← List.append_assoc] at hsigil
    replace hsigil := hsigil.of_append (List.append_ne_nil_of_right_ne_nil inside hclosing)
    dsimp only at h
    rw [← past_tag_offset start sigil inside] at h
    cases h
    refine ⟨start.tag sigil inside start.closing, ?_, .pragma rfl hsigil hfirst⟩
    simp only [Cursor.tag, List.append_assoc]

/-- **A token that is read is read off a tile.** -/
theorem exists_tile (hne : cs ≠ []) (hclosing : start.closing ≠ [])
    (h : readToken start cs = .ok step) :
    ∃ segment, cs = segment ++ step.rest ∧ Tile start segment step.rest step.token step.next := by
  unfold readToken at h
  split at h
  · next inside hopened =>
    obtain ⟨-, rfl⟩ := opened?_eq_some hopened
    cases inside with
    | nil =>
      -- nothing follows the opening delimiter, so that the tag is not closed
      unfold readTag readNamed at h
      rw [Text.cutAt?, if_neg (by simpa using hclosing)] at h
      cases h
    | cons c r =>
      obtain ⟨sigil, after, kind, hcs, hsigil⟩ := exists_announces c r
      rw [hcs, hsigil.readTag_eq] at h
      rw [hcs]
      by_cases hdelimiters : kind = .delimiterTag
      · subst hdelimiters
        exact tile_readDelimiters hsigil h
      · by_cases hpragma : kind = .pragma
        · subst hpragma
          exact tile_readPragma hsigil hclosing h
        · rw [readerOf_named hdelimiters hpragma] at h
          exact tile_readNamed hsigil hclosing ⟨hdelimiters, hpragma⟩ h
  · next hclosed =>
    cases h
    obtain ⟨hcs, hpiece⟩ := textSegment_chunk start.opening cs
    have hpiece_ne : (chunk start.opening cs).1 ≠ [] := by
      intro hnil
      rw [hnil, List.nil_append] at hcs
      rcases hpiece.ends with hends | hends | hends
      · rw [hnil] at hends
        cases hends
      · exact hne (hcs.trans hends)
      · rw [← hcs, hclosed] at hends
        cases hends
    exact ⟨_, hcs, .text hpiece_ne hpiece⟩

/-! ## A tile is a token that is read -/

/-- What is read where a tag stands. -/
theorem readToken_tag (hopening : start.opening ≠ []) {inside closing : List Char}
    (hsigil : Announces sigil (inside ++ closing) kind) (rest : List Char) :
    readToken start (start.tag sigil inside closing ++ rest) =
      readerOf kind start (start.offset + byteLength start.opening + byteLength sigil)
        (inside ++ (closing ++ rest)) := by
  have hsigil := hsigil.append rest
  rw [List.append_assoc] at hsigil
  rw [Cursor.tag, List.append_assoc, readToken_opening hopening, List.append_assoc,
    List.append_assoc, hsigil.readTag_eq]

variable {segment rest : List Char} {t : Token} {next : Cursor}

/-- **The token of a tile is read off it.** -/
theorem Tile.readToken_eq (h : Tile start segment rest t next) (hopening : start.opening ≠ []) :
    readToken start (segment ++ rest) = .ok ⟨t, next, rest⟩ := by
  have hcut {pattern inside rest : List Char} (hfirst : FirstAfter pattern inside) :
      Text.cutAt? pattern (inside ++ (pattern ++ rest)) = some (inside, rest) :=
    Text.cutAt?_eq_some_iff.2 ⟨rfl, hfirst⟩
  cases h with
  | text hne hpiece =>
    rw [readToken, hpiece.closed segment hne List.suffix_rfl]
    simp only [readText, hpiece.chunk_eq, Cursor.past]
  | @named sigil inside _ _ kind hsegment hsigil hkind hfirst =>
    rw [hsegment, readToken_tag hopening hsigil, readerOf_named hkind.2.1 hkind.2.2]
    simp only [readNamed, hcut hfirst, if_neg hkind.1, ← past_tag_offset]
    rfl
  | @triple sigil inside _ _ hclosing hsegment hsigil hfirst =>
    have hpast := past_brace_offset start (start.tag sigil inside start.closing)
    have hplace := Nat.sub_eq_of_eq_add hpast
    rw [hsegment, hplace, List.append_assoc, readToken_tag hopening hsigil]
    simp only [readerOf, readNamed, List.singleton_append, hcut hfirst, if_pos hclosing,
      ← past_tag_offset, if_true, ← hpast, reduceCtorEq, if_false]
    rfl
  | @tripleInside sigil inside name _ _ hclosing hsegment hsigil hfirst hname =>
    have hbrace : (Text.trim inside).getLast? = some '\x7d' := by rw [hname, List.getLast?_concat]
    have hdrop : (Text.trim inside).dropLast = name := by rw [hname, List.dropLast_concat]
    rw [hsegment, readToken_tag hopening hsigil]
    simp only [readerOf, readNamed, hcut hfirst, if_neg hclosing, if_pos hbrace, hdrop,
      ← past_tag_offset, if_true, reduceCtorEq, if_false]
    rfl
  | @delimiters sigil inside _ _ d hsegment hsigil hfirst hspec =>
    rw [hsegment, readToken_tag hopening hsigil]
    simp only [readerOf, readDelimiters, hcut hfirst, hspec, ← past_tag_offset]
    rfl
  | @pragma sigil inside _ _ hsegment hsigil hfirst =>
    rw [hsegment, readToken_tag hopening hsigil]
    simp only [readerOf, readPragma, hcut hfirst, ← past_tag_offset]
    rfl

end Read

/-! ## Rows of tiles -/

section Rows

variable {start next stop : Cursor} {segment rest cs : List Char} {segments : List (List Char)}
  {t : Token} {ts us : List Token}

/-- No tile is empty. -/
theorem Tile.ne_nil (h : Tile start segment rest t next) (hopening : start.opening ≠ []) :
    segment ≠ [] := by
  have htag {sigil inside closing more : List Char} :
      start.tag sigil inside closing ++ more ≠ [] :=
    List.append_ne_nil_of_left_ne_nil (List.append_ne_nil_of_left_ne_nil hopening _) _
  have hplain {sigil inside closing : List Char} : start.tag sigil inside closing ≠ [] :=
    List.append_ne_nil_of_left_ne_nil hopening _
  cases h with
  | text hne _ => exact hne
  | named hsegment _ _ _ => exact hsegment ▸ hplain
  | triple _ hsegment _ _ => exact hsegment ▸ htag
  | tripleInside _ hsegment _ _ _ => exact hsegment ▸ hplain
  | delimiters hsegment _ _ _ => exact hsegment ▸ hplain
  | pragma hsegment _ _ => exact hsegment ▸ hplain

theorem Tile.offset_eq (h : Tile start segment rest t next) :
    next.offset = start.offset + byteLength segment := by
  cases h <;> rfl

theorem Tile.accepted (h : Tile start segment rest t next) (hstart : start.delimiters.Accepted) :
    next.delimiters.Accepted :=
  (readToken_accepted (h.readToken_eq hstart.ne_nil.1) hstart).2

/-- **A tag that opens or closes others** has the delimiters in force before
and after it. A closing tag says where it begins, an opening one where it
ends. -/
theorem Tile.place (h : Tile start segment rest t next)
    (hkind : t.kind.opens true = true ∨ t.kind = .closingTag) :
    t.delimiters? = some start.delimiters ∧ next.delimiters = start.delimiters ∧
      t.offset? = some (if t.kind = .closingTag then start.offset else next.offset) := by
  cases h with
  | named => exact ⟨rfl, rfl, rfl⟩
  | text | triple | tripleInside | delimiters | pragma =>
    rcases hkind with hkind | hkind <;> cases hkind

/-- Reading on goes along the tiles. -/
theorem Tiles.reads (h : Tiles start segments rest ts stop) (hstart : start.delimiters.Accepted) :
    Reads start (segments.flatten ++ rest) ts stop rest := by
  induction h with
  | nil => exact .nil _ _
  | cons htile _ ih =>
    have hread := htile.readToken_eq hstart.ne_nil.1
    have hne := List.append_ne_nil_of_left_ne_nil (htile.ne_nil hstart.ne_nil.1)
    rw [List.flatten_cons, List.append_assoc]
    exact .cons (hne _) hread (ih (readToken_accepted hread hstart).2)

/-- **What is read on the way from one place to another lies there in
tiles.** -/
theorem Reads.exists_tiles (h : Reads start cs ts stop rest)
    (hstart : start.delimiters.Accepted) :
    ∃ segments, cs = segments.flatten ++ rest ∧ Tiles start segments rest ts stop := by
  induction h with
  | nil start cs => exact ⟨[], rfl, .nil start cs⟩
  | @cons start stop cs rest step ts hne hread _ ih =>
    obtain ⟨segments, hrest, htiles⟩ := ih (readToken_accepted hread hstart).2
    obtain ⟨segment, hcs, htile⟩ := exists_tile hne hstart.ne_nil.2 hread
    refine ⟨segment :: segments, ?_, .cons (hrest ▸ htile) htiles⟩
    rw [hcs, hrest, List.flatten_cons, List.append_assoc]

namespace Tiles

/-- As many segments as tokens. -/
theorem length_eq (h : Tiles start segments rest ts stop) : segments.length = ts.length := by
  induction h with
  | nil => rfl
  | cons _ _ ih => rw [List.length_cons, List.length_cons, ih]

/-- A row is cut between any two of its tokens. -/
theorem exists_between (h : Tiles start segments rest (ts ++ us) stop) :
    ∃ before after mid, segments = before ++ after ∧
      Tiles start before (after.flatten ++ rest) ts mid ∧ Tiles mid after rest us stop := by
  induction ts generalizing start segments with
  | nil => exact ⟨[], segments, start, rfl, .nil _ _, h⟩
  | cons t ts ih =>
    cases h with
    | @cons _ next _ segment _ segments _ _ htile hmore =>
      obtain ⟨before, after, mid, rfl, hbefore, hafter⟩ := ih hmore
      rw [List.flatten_append, List.append_assoc] at htile
      exact ⟨segment :: before, after, mid, rfl, .cons htile hbefore, hafter⟩

/-- Offsets count the bytes of the segments. -/
theorem offset_eq (h : Tiles start segments rest ts stop) :
    stop.offset = start.offset + byteLength segments.flatten := by
  induction h with
  | nil => rfl
  | cons htile _ ih => rw [ih, htile.offset_eq, List.flatten_cons, byteLength_append, Nat.add_assoc]

theorem accepted (h : Tiles start segments rest ts stop) (hstart : start.delimiters.Accepted) :
    stop.delimiters.Accepted := by
  induction h with
  | nil => exact hstart
  | cons htile _ ih => exact ih (htile.accepted hstart)

/-- **The tokens between two tags** lie on the segments between theirs, with
the delimiters that the first tag is written with; there the offsets of the
tags are. -/
theorem exists_tags {before inside after : List Token} {first last : Token}
    (h : Tiles start segments rest (before ++ first :: (inside ++ last :: after)) stop)
    (hstart : start.delimiters.Accepted) (hfirst : first.kind.opens true = true)
    (hlast : last.kind = .closingTag) :
    ∃ earlier opening between closing later next mid,
      segments = earlier ++ opening :: (between ++ closing :: later) ∧
      earlier.length = before.length ∧ opening ≠ [] ∧
      next.offset = start.offset + byteLength (earlier.flatten ++ opening) ∧
      next.delimiters.Accepted ∧ first.delimiters? = some next.delimiters ∧
      first.offset? = some next.offset ∧ last.offset? = some mid.offset ∧
      Tiles next between ((closing :: later).flatten ++ rest) inside mid ∧
      Tiles mid (closing :: later) rest (last :: after) stop := by
  obtain ⟨earlier, segments', begun, rfl, hearlier, htiles⟩ := h.exists_between
  cases htiles with
  | @cons _ next _ opening _ segments' _ _ hopen htiles =>
    obtain ⟨between, segments', mid, rfl, hbetween, htiles⟩ := htiles.exists_between
    have hclosing := htiles
    cases htiles with
    | @cons _ _ _ closing _ later _ _ hclose _ =>
      have hbegun := hearlier.accepted hstart
      obtain ⟨hdelimiters, hnext, hplace⟩ := hopen.place (.inl hfirst)
      rw [if_neg (by intro hkind; rw [hkind] at hfirst; cases hfirst)] at hplace
      obtain ⟨-, -, hplace'⟩ := hclose.place (.inr hlast)
      rw [if_pos hlast] at hplace'
      refine ⟨earlier, opening, between, closing, later, next, mid, rfl, hearlier.length_eq,
        hopen.ne_nil hbegun.ne_nil.1, ?_, hopen.accepted hbegun, hdelimiters.trans ?_, hplace,
        hplace', hbetween, hclosing⟩
      · rw [hopen.offset_eq, hearlier.offset_eq, byteLength_append, Nat.add_assoc]
      · rw [hnext]

/-- **A text is tiled in one way.** -/
theorem unique (h : Tiles start segments rest ts stop) (hstart : start.delimiters.Accepted)
    {segments' : List (List Char)} {ts' : List Token} {stop' : Cursor}
    (h' : Tiles start segments' rest ts' stop') (hflat : segments.flatten = segments'.flatten) :
    segments = segments' ∧ ts = ts' := by
  induction h generalizing segments' ts' with
  | nil start rest =>
    cases h' with
    | nil => exact ⟨rfl, rfl⟩
    | cons htile _ =>
      have hnil := (List.append_eq_nil_iff.1 hflat.symm).1
      exact absurd hnil (htile.ne_nil hstart.ne_nil.1)
  | @cons start next stop segment rest segments t ts htile _ ih =>
    have hread := htile.readToken_eq hstart.ne_nil.1
    cases h' with
    | nil => exact absurd (List.append_eq_nil_iff.1 hflat).1 (htile.ne_nil hstart.ne_nil.1)
    | @cons _ next' _ segment' _ segments' t' ts' htile' hmore' =>
      have hread' := htile'.readToken_eq hstart.ne_nil.1
      rw [List.flatten_cons, List.flatten_cons] at hflat
      -- the same token is read, so that the same text is left
      rw [← List.append_assoc, ← hflat, List.append_assoc, hread] at hread'
      obtain ⟨rfl, rfl, hrest⟩ : t = t' ∧ next = next' ∧
          segments.flatten ++ rest = segments'.flatten ++ rest := by simpa using hread'
      have hrest := List.append_cancel_right hrest
      rw [hrest] at hflat
      obtain ⟨rfl, rfl⟩ := ih (readToken_accepted hread hstart).2 hmore' hrest
      exact ⟨congrArg (· :: segments) (List.append_cancel_right hflat), rfl⟩

end Tiles

/-- A tag that begins a tile begins it whatever follows. -/
theorem Tile.opened (h : Tile start segment rest t next) (hopening : start.opening ≠ [])
    (hopened : (opened? start.opening (segment ++ rest)).isSome = true) (more : List Char) :
    (opened? start.opening (segment ++ more)).isSome = true := by
  have htag {after : List Char} :
      (opened? start.opening (start.opening ++ after)).isSome = true := by
    rw [opened?, if_neg (by simpa using hopening), Text.after?_append]
    rfl
  cases h with
  | text hne hpiece =>
    rw [hpiece.closed segment hne List.suffix_rfl] at hopened
    cases hopened
  | named hsegment _ _ _ => rw [hsegment, Cursor.tag, List.append_assoc]; exact htag
  | triple _ hsegment _ _ =>
    rw [hsegment, Cursor.tag, List.append_assoc, List.append_assoc]
    exact htag
  | tripleInside _ hsegment _ _ _ => rw [hsegment, Cursor.tag, List.append_assoc]; exact htag
  | delimiters hsegment _ _ _ => rw [hsegment, Cursor.tag, List.append_assoc]; exact htag
  | pragma hsegment _ _ => rw [hsegment, Cursor.tag, List.append_assoc]; exact htag

/-- Where no tag begins the delimiters stay in force. -/
theorem Tile.opening_eq (h : Tile start segment rest t next) (hopening : start.opening ≠ [])
    (hclosed : opened? start.opening (segment ++ rest) = none) :
    next.opening = start.opening := by
  have hread := h.readToken_eq hopening
  rw [readToken, hclosed] at hread
  exact congrArg (·.next.opening) (Except.ok.inj hread).symm

/-- A tile may be laid elsewhere, a piece of text where it ends alike. -/
theorem Tile.moved (h : Tile start segment rest t next) {start' : Cursor}
    (hd : start'.delimiters = start.delimiters) {rest' : List Char}
    (hrest : TextSegment start.opening segment rest → TextSegment start.opening segment rest') :
    ∃ t' next', Tile start' segment rest' t' next' ∧ t.Moved t' ∧
      next'.delimiters = next.delimiters := by
  obtain ⟨offset, line, d⟩ := start
  obtain ⟨offset', line', d'⟩ := start'
  dsimp only at hd
  subst hd
  cases h with
  | text hne hpiece => exact ⟨_, _, .text hne (hrest hpiece), rfl, rfl⟩
  | named hsegment hsigil hkind hfirst =>
    exact ⟨_, _, .named hsegment hsigil hkind hfirst, rfl, rfl⟩
  | triple hclosing hsegment hsigil hfirst =>
    exact ⟨_, _, .triple hclosing hsegment hsigil hfirst, rfl, rfl⟩
  | tripleInside hclosing hsegment hsigil hfirst hname =>
    exact ⟨_, _, .tripleInside hclosing hsegment hsigil hfirst hname, rfl, rfl⟩
  | delimiters hsegment hsigil hfirst hspec =>
    exact ⟨_, _, .delimiters hsegment hsigil hfirst hspec, rfl, rfl⟩
  | pragma hsegment hsigil hfirst => exact ⟨_, _, .pragma hsegment hsigil hfirst, rfl, rfl⟩

/-- **A row may be laid by itself**, without what follows it, wherever its
delimiters are in force. -/
theorem Tiles.alone (h : Tiles start segments rest ts stop) (hstart : start.delimiters.Accepted)
    {start' : Cursor} (hd : start'.delimiters = start.delimiters) :
    ∃ ts' stop', Tiles start' segments [] ts' stop' ∧ List.Forall₂ Token.Moved ts ts' := by
  induction h generalizing start' with
  | nil start rest => exact ⟨[], start', .nil _ _, .nil⟩
  | @cons start next stop segment rest segments t ts htile hmore ih =>
    have hopening := hstart.ne_nil.1
    have hnext := readToken_accepted (htile.readToken_eq hopening) hstart
    have hrest (hpiece : TextSegment start.opening segment (segments.flatten ++ rest)) :
        TextSegment start.opening segment (segments.flatten ++ []) := by
      rw [List.append_nil]
      refine hpiece.of_append fun hne hopened => ?_
      -- the tag that ends a piece of text has a tile of its own
      cases hmore with
      | nil => exact absurd rfl hne
      | cons hfirst _ =>
        have hclosed := hpiece.closed segment (htile.ne_nil hopening) List.suffix_rfl
        have heq := htile.opening_eq hopening hclosed
        rw [List.flatten_cons, List.append_assoc, ← heq] at hopened
        rw [List.flatten_cons, ← heq]
        exact hfirst.opened hnext.2.ne_nil.1 hopened _
    obtain ⟨t', next', htile', hmoved, hdelimiters⟩ := htile.moved hd hrest
    obtain ⟨ts', stop', htiles, hall⟩ := ih hnext.2 hdelimiters
    exact ⟨t' :: ts', stop', .cons htile' htiles, .cons hmoved hall⟩

/-- The text of a template that scans is a row of tiles. -/
theorem exists_tiles_of_scan {delimiters : Delimiters} (hd : delimiters.Accepted) {source : String}
    (h : Token.scan delimiters source = .ok ts) :
    ∃ raw segments stop, ts = hoistPragmas raw ∧ source.toList = segments.flatten ∧
      Tiles ⟨0, 0, delimiters⟩ segments [] raw stop := by
  obtain ⟨raw, hraw, rfl⟩ := exists_of_scan h
  obtain ⟨stop, hreads⟩ := tokensFrom_eq_ok_iff.1 hraw
  obtain ⟨segments, hsource, htiles⟩ := hreads.exists_tiles hd
  rw [List.append_nil] at hsource
  exact ⟨raw, segments, stop, rfl, hsource, htiles⟩

/-- **What scans is what can be tiled.** From accepted delimiters a template
scans just if its text is a row of tiles, one for each token in the order of
the text. The pragmas among the tokens come first, the last one foremost. -/
theorem scan_eq_ok_iff_tiles {delimiters : Delimiters} (hd : delimiters.Accepted)
    {source : String} :
    Token.scan delimiters source = .ok ts ↔
      ∃ raw segments stop, source.toList = segments.flatten ∧
        Tiles ⟨0, 0, delimiters⟩ segments [] raw stop ∧
        ts = (raw.filter fun t => t.kind = .pragma).reverse ++
          raw.filter fun t => t.kind ≠ .pragma := by
  have hscan : Token.scan delimiters source = .ok ts ↔
      ∃ raw, tokensFrom ⟨0, 0, delimiters⟩ source.toList = .ok raw ∧ ts = hoistPragmas raw := by
    unfold Token.scan
    cases tokensFrom ⟨0, 0, delimiters⟩ source.toList with
    | error e => exact ⟨nofun, fun ⟨_, h, _⟩ => nomatch h⟩
    | ok raw =>
      constructor
      · rintro h
        cases h
        exact ⟨raw, rfl, rfl⟩
      · rintro ⟨_, h, rfl⟩
        cases h
        rfl
  rw [hscan]
  constructor
  · rintro ⟨raw, hraw, hts⟩
    obtain ⟨stop, hreads⟩ := tokensFrom_eq_ok_iff.1 hraw
    obtain ⟨segments, hsource, htiles⟩ := hreads.exists_tiles hd
    rw [List.append_nil] at hsource
    exact ⟨raw, segments, stop, hsource, htiles, hts⟩
  · rintro ⟨raw, segments, stop, hsource, htiles, hts⟩
    have hreads := htiles.reads hd
    rw [List.append_nil, ← hsource] at hreads
    exact ⟨raw, tokensFrom_eq_ok_iff.2 ⟨stop, hreads⟩, hts⟩

end Rows

/-- Text on two lines, a pragma, a triple brace and a change of the
delimiters, after which double braces are text. -/
def mixed : String :=
  "é\nx\x7b\x7b% P \x7d\x7d\x7b\x7b\x7b a \x7d\x7d\x7d\x7b\x7b=<% %>=\x7d\x7d<%b%>\x7b\x7b"

theorem scan_eq_ok_iff_tiles_of_mixed :
    Delimiters.standard.Accepted ∧ ∃ ts, Token.scan .standard mixed = .ok ts ∧
      (ts.map fun t => (t.kind, t.text?, t.offset?)) =
        [(.pragma, none, none), (.text, some "é\n", none), (.text, some "x", none),
          (.tripleBrace, none, some 20), (.delimiterTag, none, none), (.escaped, none, some 37),
          (.text, some "\x7b\x7b", none)] ∧
      ∃ raw segments stop, mixed.toList = segments.flatten ∧
        Tiles ⟨0, 0, .standard⟩ segments [] raw stop ∧
        ts = (raw.filter fun t => t.kind = .pragma).reverse ++
          raw.filter fun t => t.kind ≠ .pragma := by
  have htokens : ((Token.scan .standard mixed).toOption.map
      (List.map fun t => (t.kind, t.text?, t.offset?))) =
        some [(.pragma, none, none), (.text, some "é\n", none), (.text, some "x", none),
          (.tripleBrace, none, some 20), (.delimiterTag, none, none), (.escaped, none, some 37),
          (.text, some "\x7b\x7b", none)] := by decide +kernel
  obtain ⟨ts, hscan, hmap⟩ := exists_of_toOption_map htokens
  exact ⟨Delimiters.accepted_standard, ts, hscan, hmap,
    (scan_eq_ok_iff_tiles Delimiters.accepted_standard).1 hscan⟩

end Scan

end Mustache
