import Mustache.Proofs.Insertions
import Mustache.Proofs.SectionSpans
/-!
# Mustache — white space where lines begin

`Scan.withMargin` puts white space in front of each line of a template that
begins outside a tag. The template is scanned to the same tokens then: a piece of
text has the white space in it, and a tag has it in front of it as a piece of its
own (`Scan.Indented`, `Scan.Tiles.exists_indented`). `Rows` are the segments and
tokens of both templates side by side.

A section has its tokens between its tags in both (`Tree.indentedSection_of_tags`),
and they can be told from their text. So two sections have one text exactly if
they have one text with the white space (`Tree.IndentedSection.source_eq_iff`).
-/

namespace Mustache

namespace Scan

open Text (byteLength)

/-- **A template with white space in front of each line that begins outside a
tag.** The flag says whether a line begins where scanning has got to. Nothing
stands on the line after a last newline, so that it stays as it is, and so does
what cannot be read. -/
def indented (w : List Char) (start : Cursor) (begins : Bool) (cs : List Char) : List Char :=
  match cs with
  | [] => []
  | c :: r =>
    match _h : readToken start (c :: r) with
    | .ok step =>
      (if begins then w else []) ++
        ((c :: r).take ((c :: r).length - step.rest.length) ++
          indented w step.next step.token.endsLine step.rest)
    | .error _ => c :: r
termination_by cs.length
decreasing_by exact readToken_length _h

/-- The whole template. -/
def withMargin (w : String) (d : Delimiters) (source : String) : String :=
  String.ofList (indented w.toList ⟨0, 0, d⟩ true source.toList)

/-- Where a token is read, what it is read off is kept. -/
theorem indented_append {w segment rest : List Char} {start : Cursor} {begins : Bool}
    {t : Token} {next : Cursor} (hne : segment ≠ [])
    (h : readToken start (segment ++ rest) = .ok ⟨t, next, rest⟩) :
    indented w start begins (segment ++ rest) =
      (if begins then w else []) ++ (segment ++ indented w next t.endsLine rest) := by
  obtain ⟨c, r, rfl⟩ := List.exists_cons_of_ne_nil hne
  rw [List.cons_append] at h ⊢
  rw [indented]
  split
  · next step hstep =>
    cases h.symm.trans hstep
    have htake : (c :: (r ++ rest)).take ((c :: (r ++ rest)).length - rest.length) = c :: r := by
      rw [← List.cons_append, List.length_append, Nat.add_sub_cancel, List.take_left]
    rw [htake]
  · next err herr =>
    cases h.symm.trans herr

/-! ## Segments and tokens -/

/-- **Segments with their tokens, and the same with white space where lines
begin.** A piece of text has the white space in it, and a tag has it in front of
it as a piece of its own. The flags say whether a line begins before the first
token and after the last one. -/
inductive Indented (w : List Char) : Bool → List (List Char) → List Token →
    List (List Char) → List Token → Bool → Prop
  | nil {begins : Bool} : Indented w begins [] [] [] [] begins
  | text {begins ends : Bool} {segment : List Char} {line : Nat}
      {segments segments' : List (List Char)} {ts ts' : List Token} :
      Indented w (Token.ofText (String.ofList segment) line).endsLine segments ts segments' ts'
        ends →
      Indented w begins (segment :: segments) (.ofText (String.ofList segment) line :: ts)
        (((if begins then w else []) ++ segment) :: segments')
        (.ofText (String.ofList ((if begins then w else []) ++ segment)) line :: ts') ends
  | tag {begins ends : Bool} {segment : List Char} {segments segments' : List (List Char)}
      {t t' : Token} {ts ts' : List Token} :
      t.kind ≠ .text → t.Moved t' → t'.line = t.line →
      Indented w false segments ts segments' ts' ends →
      Indented w begins (segment :: segments) (t :: ts)
        ((if begins then [w] else []) ++ segment :: segments')
        ((if begins then [.ofText (String.ofList w) t.line] else []) ++ t' :: ts') ends

/-- A tile is a piece of text, or it begins with the opening delimiter. -/
theorem Tile.text_or_opened {start next : Cursor} {segment rest : List Char} {t : Token}
    (h : Tile start segment rest t next) :
    (TextSegment start.opening segment rest ∧ segment ≠ [] ∧
        t = .ofText (String.ofList segment) start.line ∧ next.delimiters = start.delimiters ∧
        next.line = start.line + if segment.getLast? = some '\n' then 1 else 0) ∨
      (t.kind ≠ .text ∧ ∃ after, segment = start.opening ++ after) := by
  cases h with
  | text hne hpiece => exact .inl ⟨hpiece, hne, rfl, rfl, rfl⟩
  | named hsegment hsigil _ _ =>
    exact .inr ⟨hsigil.ne_text, _, hsegment⟩
  | triple _ hsegment _ _ =>
    exact .inr ⟨nofun, _, hsegment.trans (List.append_assoc _ _ _)⟩
  | tripleInside _ hsegment _ _ _ => exact .inr ⟨nofun, _, hsegment⟩
  | delimiters hsegment _ _ _ => exact .inr ⟨nofun, _, hsegment⟩
  | pragma hsegment _ _ => exact .inr ⟨nofun, _, hsegment⟩

/-- No tag begins in front of a newline and goes on behind it. -/
theorem Unopened.of_newline {d : Delimiters} (hd : d.Accepted) {piece rest : List Char}
    (h : Unopened d.opening.toList piece rest) (hlast : piece.getLast? = some '\n')
    (rest' : List Char) : Unopened d.opening.toList piece rest' := by
  intro v hv hsuffix
  have hnewline : '\n' ∈ v := by
    obtain ⟨u, rfl⟩ := hsuffix
    rw [List.getLast?_append_of_ne_nil u hv] at hlast
    exact List.mem_of_getLast? hlast
  cases hopened : opened? d.opening.toList (v ++ rest') with
  | none => rfl
  | some inside =>
    obtain ⟨hne, heq⟩ := opened?_eq_some hopened
    rcases List.append_eq_append_iff.1 heq with ⟨more, hopening, -⟩ | ⟨more, rfl, -⟩
    · have hblank := (hd.not_blank (c := '\n') (by decide)).1
      rw [hopening] at hblank
      exact absurd (List.mem_append_left more hnewline) hblank
    · have hclosed := h _ hv hsuffix
      rw [List.append_assoc, opened?, if_neg (by simpa using hne), Text.after?_append] at hclosed
      cases hclosed

/-- What follows the tag that ends a piece of text has no part in where the
piece ends. -/
theorem Unopened.of_tag {opening piece after rest : List Char}
    (h : Unopened opening piece (opening ++ after ++ rest)) (rest' : List Char) :
    Unopened opening piece (opening ++ after ++ rest') := by
  intro v hv hsuffix
  have hclosed := h v hv hsuffix
  unfold opened? at hclosed ⊢
  split at hclosed
  · next hempty => rw [if_pos hempty]
  · next hne =>
    rw [if_neg hne]
    rw [← List.append_assoc] at hclosed ⊢
    refine Text.after?_eq_none_append ?_ hclosed rest'
    rw [List.length_append, List.length_append]
    omega

/-- What a tile of a tag reads depends on nothing that follows it, nor on where it
stands on its line. -/
theorem Tile.tag_again {start next : Cursor} {segment rest : List Char} {t : Token}
    (h : Tile start segment rest t next) (hkind : t.kind ≠ .text) (hplain : t.kind ≠ .pragma)
    {start' : Cursor} (hdelimiters : start'.delimiters = start.delimiters)
    (hline : start'.line = start.line) :
    ∃ t' next', (∀ rest', Tile start' segment rest' t' next') ∧ t.Moved t' ∧ t'.line = t.line ∧
      next'.delimiters = next.delimiters ∧ next'.line = next.line := by
  obtain ⟨offset, line, d⟩ := start
  obtain ⟨offset', line', d'⟩ := start'
  dsimp only at hdelimiters hline
  subst hdelimiters hline
  cases h with
  | text => exact absurd rfl hkind
  | named hsegment hsigil hnamed hfirst =>
    exact ⟨_, _, fun _ => .named hsegment hsigil hnamed hfirst, rfl, rfl, rfl, rfl⟩
  | triple hclosing hsegment hsigil hfirst =>
    exact ⟨_, _, fun _ => .triple hclosing hsegment hsigil hfirst, rfl, rfl, rfl, rfl⟩
  | tripleInside hclosing hsegment hsigil hfirst hname =>
    exact ⟨_, _, fun _ => .tripleInside hclosing hsegment hsigil hfirst hname, rfl, rfl, rfl, rfl⟩
  | delimiters hsegment hsigil hfirst hspec =>
    exact ⟨_, _, fun _ => .delimiters hsegment hsigil hfirst hspec, rfl, rfl, rfl, rfl⟩
  | pragma => exact absurd rfl hplain

/-- Where no line begins the first segment stays as it is. -/
theorem Indented.exists_head {w segment : List Char} {segments segments' : List (List Char)}
    {ts ts' : List Token} {ends : Bool}
    (h : Indented w false (segment :: segments) ts segments' ts' ends) :
    ∃ more, segments' = segment :: more := by
  cases h with
  | text _ => exact ⟨_, rfl⟩
  | tag _ _ _ _ => exact ⟨_, rfl⟩

/-- A piece of text ends where it did: at a newline, at the end, or at the tag that
follows. -/
theorem TextSegment.of_indented {w piece : List Char} {start next stop : Cursor}
    {segments segments' : List (List Char)} {ts ts' : List Token} {ends : Bool} {line : Nat}
    (hd : start.delimiters.Accepted) (hnext : next.delimiters = start.delimiters)
    (hmore : Tiles next segments [] ts stop)
    (hind : Indented w (Token.ofText (String.ofList piece) line).endsLine segments ts segments' ts'
      ends)
    (h : TextSegment start.opening piece (segments.flatten ++ [])) :
    TextSegment start.opening piece (segments'.flatten ++ []) := by
  by_cases hlast : piece.getLast? = some '\n'
  · exact ⟨h.closed.of_newline hd hlast _, h.newline, .inl hlast⟩
  · have hends : (Token.ofText (String.ofList piece) line).endsLine = false := by
      unfold Token.endsLine
      rw [Token.ofText, Token.text, Option.getD_some, String.toList_ofList]
      exact decide_eq_false hlast
    rw [hends] at hind
    cases hmore with
    | nil =>
      cases hind
      exact h
    | @cons _ next' _ segment _ segments t ts htile _ =>
      obtain ⟨more, rfl⟩ := hind.exists_head
      have hopening : next.opening = start.opening := congrArg (·.opening.toList) hnext
      have hne : segment ≠ [] := htile.ne_nil (hopening ▸ hd.ne_nil.1)
      rw [List.append_nil, List.flatten_cons] at h ⊢
      have hopened := (h.ends.resolve_left hlast).resolve_left
        (List.append_ne_nil_of_left_ne_nil hne _)
      rcases htile.text_or_opened with ⟨hpiece, -⟩ | ⟨-, after, rfl⟩
      · have hclosed := hpiece.closed segment hne List.suffix_rfl
        rw [List.append_nil, hopening] at hclosed
        rw [hclosed] at hopened
        cases hopened
      · rw [hopening] at h hopened ⊢
        refine ⟨h.closed.of_tag _, h.newline, .inr (.inr ?_)⟩
        rw [List.append_assoc, opened?, if_neg (by rw [List.isEmpty_iff]; exact hd.ne_nil.1),
          Text.after?_append]
        rfl

section Padding

variable {w : List Char} (hw : ∀ c ∈ w, Text.isBlank c = true ∧ c ≠ '\n')
variable {d : Delimiters} (hd : d.Accepted)

include hw

/-- White space in front of a piece of text belongs to it. -/
theorem TextSegment.padded {piece rest : List Char} (hd : d.Accepted)
    (h : TextSegment d.opening.toList piece rest) (hne : piece ≠ []) :
    TextSegment d.opening.toList (w ++ piece) rest := by
  refine ⟨fun v hv hsuffix => ?_, ?_, ?_⟩
  · obtain ⟨u, hu⟩ := hsuffix
    rcases List.append_eq_append_iff.1 hu with ⟨lead, rfl, rfl⟩ | ⟨more, -, rfl⟩
    · cases lead with
      | nil => exact h.closed piece hne List.suffix_rfl
      | cons c lead =>
        have hc := (hw c (List.mem_append_right u List.mem_cons_self)).1
        exact opened?_blank hd hc _
    · exact h.closed v hv (List.suffix_append more v)
  · rw [List.dropLast_append_of_ne_nil hne, List.mem_append, not_or]
    exact ⟨fun hmem => (hw _ hmem).2 rfl, h.newline⟩
  · rw [List.getLast?_append_of_ne_nil w hne]
    exact h.ends

/-- A piece of text with the white space in front of it. -/
theorem exists_tile_padded {start : Cursor} {piece : List Char} (hd : start.delimiters.Accepted)
    (hne : piece ≠ []) (begins : Bool) :
    ∃ next : Cursor, next.delimiters = start.delimiters ∧
      next.line = start.line + (if piece.getLast? = some '\n' then 1 else 0) ∧
      ∀ rest, TextSegment start.opening piece rest →
        Tile start ((if begins then w else []) ++ piece) rest
          (.ofText (String.ofList ((if begins then w else []) ++ piece)) start.line) next := by
  refine ⟨{ start.past ((if begins then w else []) ++ piece) with
    line := start.line + if piece.getLast? = some '\n' then 1 else 0 }, rfl, rfl, ?_⟩
  intro rest hpiece
  have hwhole : TextSegment start.opening ((if begins then w else []) ++ piece) rest := by
    cases begins with
    | false => exact hpiece
    | true => exact hpiece.padded hw hd hne
  have htile := Tile.text (List.append_ne_nil_of_right_ne_nil _ hne) hwhole
  rwa [List.getLast?_append_of_ne_nil _ hne] at htile

/-- **With white space where its lines begin a template is a row of tiles
again**, one for each of its own and one for each tag that begins a line. -/
theorem Tiles.exists_indented (hne : w ≠ []) {start stop : Cursor} {segments : List (List Char)}
    {ts : List Token} (h : Tiles start segments [] ts stop) (hd : start.delimiters.Accepted)
    (hplain : ∀ t ∈ ts, t.kind ≠ .pragma) (start' : Cursor)
    (hdelimiters : start'.delimiters = start.delimiters) (hline : start'.line = start.line)
    (begins : Bool) :
    ∃ segments' ts' stop' ends, Tiles start' segments' [] ts' stop' ∧
      Indented w begins segments ts segments' ts' ends ∧
      segments'.flatten = indented w start begins segments.flatten := by
  generalize hrest : [] = rest at h
  induction h generalizing start' begins with
  | nil start rest =>
    subst hrest
    exact ⟨[], [], start', begins, .nil _ _, .nil, by rw [List.flatten_nil, indented]⟩
  | @cons start next stop segment rest segments t ts htile hmore ih =>
    subst hrest
    obtain ⟨hplain, hplains⟩ := List.forall_mem_cons.1 hplain
    have hopening : start'.opening = start.opening := congrArg (·.opening.toList) hdelimiters
    have hd' : start'.delimiters.Accepted := hdelimiters ▸ hd
    have hread := htile.readToken_eq hd.ne_nil.1
    obtain ⟨hfresh, -⟩ := readToken_line hread hplain
    have hnext := (readToken_accepted hread hd).2
    have hindented := @indented_append w _ _ _ begins _ _ (htile.ne_nil hd.ne_nil.1) hread
    rw [List.append_nil] at hindented
    rw [List.flatten_cons, hindented]
    -- a piece of text takes the white space in, a tag gets a piece of its own before it
    rcases htile.text_or_opened with ⟨hpiece, hne', rfl, hnextd, hnextl⟩ | ⟨hkind, after, hsegment⟩
    · obtain ⟨next', hnextd', hnextl', htile'⟩ := exists_tile_padded hw hd' hne' begins
      obtain ⟨segments', ts', stop', ends, htiles, hind, hflat⟩ := ih hnext hplains next'
        (hnextd'.trans (hdelimiters.trans hnextd.symm))
        (hnextl'.trans (hline ▸ hnextl.symm))
        (Token.ofText (String.ofList segment) start.line).endsLine rfl
      have hpiece' := hpiece.of_indented hd hnextd hmore hind
      refine ⟨_, _, stop', ends, .cons (htile' _ (hopening ▸ hpiece')) htiles, ?_, ?_⟩
      · rw [hline]
        exact .text hind
      · rw [List.flatten_cons, hflat, List.append_assoc]
    · have hends : t.endsLine = false := hfresh.endsLine_of_tag hkind
      rw [hends]
      obtain ⟨t', next', htile', hmoved, hat, hnextd, hnextl⟩ : ∃ t' next',
          (∀ rest', Tile (if begins then start'.past w else start') segment rest' t' next') ∧
            t.Moved t' ∧ t'.line = t.line ∧ next'.delimiters = next.delimiters ∧
            next'.line = next.line := by
        cases begins <;> exact htile.tag_again hkind hplain hdelimiters hline
      obtain ⟨segments', ts', stop', ends, htiles, hind, hflat⟩ := ih hnext hplains next'
        hnextd hnextl false rfl
      refine ⟨_, _, stop', ends, ?_, .tag hkind hmoved hat hind, ?_⟩
      · cases begins with
        | false => exact .cons (htile' _) htiles
        | true =>
          have hpad := tile_padding hw hd' hne (after ++ (segments'.flatten ++ []))
          have hat' : t.line = start'.line := (readToken_line hread hplain).2.1.trans hline.symm
          rw [← List.append_assoc, hopening, ← hsegment, ← List.append_assoc] at hpad
          rw [hat']
          exact .cons hpad (.cons (htile' _) htiles)
      · cases begins with
        | false =>
          rw [if_neg nofun, if_neg nofun, List.nil_append, List.nil_append, List.flatten_cons,
            hflat]
        | true =>
          rw [if_pos rfl, if_pos rfl, List.singleton_append, List.flatten_cons, List.flatten_cons,
            hflat]

end Padding

/-! ## The text of a section -/

/-- No segment of a row is empty. -/
theorem Tiles.ne_nil {start stop : Cursor} {segments : List (List Char)} {rest : List Char}
    {ts : List Token} (h : Tiles start segments rest ts stop) (hd : start.delimiters.Accepted) :
    ∀ segment ∈ segments, segment ≠ [] := by
  induction h with
  | nil => exact nofun
  | cons htile _ ih =>
    have hread := htile.readToken_eq hd.ne_nil.1
    exact List.forall_mem_cons.2 ⟨htile.ne_nil hd.ne_nil.1, ih (readToken_accepted hread hd).2⟩

/-- No segment that tokens lie on is empty. -/
theorem Laid.ne_nil {whole : List Char} {start : Cursor} {segments : List (List Char)}
    {ts : List Token} (h : Laid whole start segments ts) : ∀ segment ∈ segments, segment ≠ [] := by
  obtain ⟨haccepted, _, _, _, -, -, htiles⟩ := h
  exact htiles.ne_nil haccepted

section Texts

variable {w : List Char} {begins ends ends' : Bool} {segments segments' : List (List Char)}
variable {others others' : List (List Char)} {ts ts' us us' : List Token}

/-- **The same segments are made the same**, wherever they stand. -/
theorem Indented.unique (h : Indented w begins segments ts segments' ts' ends)
    (hmoved : List.Forall₂ Token.Moved ts us)
    (hothers : Indented w begins segments us others' us' ends') :
    segments' = others' ∧ ends = ends' := by
  induction h generalizing us others' us' with
  | nil =>
    cases hothers
    exact ⟨rfl, rfl⟩
  | text _ ih =>
    cases hmoved with
    | cons htoken hmore =>
      cases hothers with
      | text hrest =>
        obtain ⟨rfl, rfl⟩ := ih hmore hrest
        exact ⟨rfl, rfl⟩
      | tag hkind _ _ _ => exact absurd htoken.kind hkind
  | tag hkind _ _ _ ih =>
    cases hmoved with
    | cons htoken hmore =>
      cases hothers with
      | text _ => exact absurd htoken.kind.symm hkind
      | tag _ _ _ hrest =>
        obtain ⟨rfl, rfl⟩ := ih hmore hrest
        exact ⟨rfl, rfl⟩

theorem Indented.append {mid : Bool} {more more' : List (List Char)} {vs vs' : List Token}
    (h : Indented w begins segments ts segments' ts' mid)
    (hmore : Indented w mid more vs more' vs' ends) :
    Indented w begins (segments ++ more) (ts ++ vs) (segments' ++ more') (ts' ++ vs') ends := by
  induction h with
  | nil => exact hmore
  | text _ ih => exact .text (ih hmore)
  | tag hkind hmoved hline _ ih =>
    rw [List.append_assoc, List.append_assoc]
    exact .tag hkind hmoved hline (ih hmore)

/-- **Different segments are made different**: from the same segments in the
end the white space is taken away in one way. -/
theorem Indented.injective (h : Indented w begins segments ts segments' ts' ends)
    (hothers : Indented w begins others us others' us' ends') (hsame : segments' = others')
    (hmoved : List.Forall₂ Token.Moved ts' us') (hne : ∀ segment ∈ segments, segment ≠ [])
    (hne' : ∀ segment ∈ others, segment ≠ []) : segments = others := by
  induction h generalizing others us others' us' with
  | nil =>
    cases hothers with
    | nil => rfl
    | text _ => cases hsame
    | tag _ _ _ _ => exact absurd hsame.symm (List.append_ne_nil_of_right_ne_nil _ nofun)
  | @text begins ends segment line segments segments' ts ts' _ ih =>
    obtain ⟨hsegment, hne⟩ := List.forall_mem_cons.1 hne
    cases hothers with
    | nil => cases hsame
    | text hrest =>
      obtain ⟨hhead, hmore⟩ := List.cons.inj hsame
      obtain rfl := List.append_cancel_left hhead
      cases hmoved with
      | cons _ hmoved => rw [ih hrest hmore hmoved hne (List.forall_mem_cons.1 hne').2]
    -- white space that is put before a tag is a piece by itself, and no piece is empty
    | tag hkind htag _ _ =>
      cases begins with
      | false =>
        cases hmoved with
        | cons hmoved _ => exact absurd (htag.kind.symm.trans hmoved.kind) hkind
      | true =>
        have hhead := (List.cons.inj hsame).1
        rw [if_pos rfl, List.append_right_eq_self] at hhead
        exact absurd hhead hsegment
  | @tag begins ends segment segments segments' t t' ts ts' hkind htag _ _ ih =>
    obtain ⟨_, hne⟩ := List.forall_mem_cons.1 hne
    cases hothers with
    | nil => exact absurd hsame (List.append_ne_nil_of_right_ne_nil _ nofun)
    | text _ =>
      cases begins with
      | false =>
        cases hmoved with
        | cons hmoved _ => exact absurd (htag.kind.symm.trans hmoved.kind.symm) hkind
      | true =>
        have hhead := (List.cons.inj hsame).1
        rw [if_pos rfl, List.self_eq_append_right] at hhead
        exact absurd hhead (List.forall_mem_cons.1 hne').1
    | tag _ _ _ hrest =>
      obtain ⟨rfl, hmore⟩ := List.cons.inj (List.append_cancel_left hsame)
      have hne' := (List.forall_mem_cons.1 hne').2
      cases begins with
      | false =>
        cases hmoved with
        | cons _ hmoved => rw [ih hrest hmore hmoved hne hne']
      | true =>
        cases hmoved with
        | cons _ hmoved =>
          cases hmoved with
          | cons _ hmoved => rw [ih hrest hmore hmoved hne hne']

end Texts

/-- No pragma is put in. -/
theorem Indented.plain (h : Indented w begins segments ts segments' ts' ends)
    (hplain : ∀ t ∈ ts, t.kind ≠ .pragma) : ∀ t ∈ ts', t.kind ≠ .pragma := by
  induction h with
  | nil => exact nofun
  | text _ ih =>
    exact List.forall_mem_cons.2 ⟨nofun, ih (List.forall_mem_cons.1 hplain).2⟩
  | @tag begins _ _ _ _ _ _ _ _ _ hmoved _ _ ih =>
    obtain ⟨ht, hts⟩ := List.forall_mem_cons.1 hplain
    have hmore := List.forall_mem_cons.2 ⟨hmoved.kind ▸ ht, ih hts⟩
    cases begins with
    | false => exact hmore
    | true => exact List.forall_mem_cons.2 ⟨nofun, hmore⟩

/-- As many segments as tokens. -/
theorem Indented.length_eq (h : Indented w begins segments ts segments' ts' ends) :
    segments.length = ts.length ∧ segments'.length = ts'.length := by
  induction h with
  | nil => exact ⟨rfl, rfl⟩
  | text _ ih =>
    simp only [List.length_cons]
    exact ⟨congrArg (· + 1) ih.1, congrArg (· + 1) ih.2⟩
  | @tag begins _ _ _ _ _ _ _ _ _ _ _ _ ih =>
    cases begins <;> simp [ih.1, ih.2]

/-- The white space alone, where a line begins. -/
def margin (w : List Char) (begins : Bool) : List (List Char) := if begins then [w] else []

/-- The white space alone as a token, where a line begins. -/
def marginToken (w : List Char) (line : Nat) (begins : Bool) : List Token :=
  if begins then [.ofText (String.ofList w) line] else []

/-- Segments with their tokens in one template, and in another one. -/
structure Rows where
  segments : List (List Char)
  tokens : List Token
  segments' : List (List Char)
  tokens' : List Token

namespace Rows

variable {w : List Char} {begins mid ends : Bool} {r q : Rows}

/-- One after the other. -/
def append (r q : Rows) : Rows where
  segments := r.segments ++ q.segments
  tokens := r.tokens ++ q.tokens
  segments' := r.segments' ++ q.segments'
  tokens' := r.tokens' ++ q.tokens'

theorem append_assoc (r q p : Rows) : (r.append q).append p = r.append (q.append p) := by
  simp [append]

theorem append_nil (r : Rows) : r.append ⟨[], [], [], []⟩ = r := by
  simp [append]

/-- A piece of text, with the white space in it if it begins a line. -/
def text (w : List Char) (begins : Bool) (segment : List Char) (line : Nat) : Rows where
  segments := [segment]
  tokens := [.ofText (String.ofList segment) line]
  segments' := [(if begins then w else []) ++ segment]
  tokens' := [.ofText (String.ofList ((if begins then w else []) ++ segment)) line]

/-- A tag, with the white space in front of it if it begins a line. -/
def tag (w : List Char) (begins : Bool) (segment : List Char) (t t' : Token) : Rows where
  segments := [segment]
  tokens := [t]
  segments' := margin w begins ++ [segment]
  tokens' := marginToken w t.line begins ++ [t']

/-- The one has the white space where its lines begin. -/
def Indented (w : List Char) (begins : Bool) (r : Rows) (ends : Bool) : Prop :=
  Scan.Indented w begins r.segments r.tokens r.segments' r.tokens' ends

/-- Both lie in their templates, from the same delimiters on. -/
def Laid (source source' : String) (r : Rows) : Prop :=
  ∃ start start' : Cursor, start'.delimiters = start.delimiters ∧
    Scan.Laid source.toList start r.segments r.tokens ∧
    Scan.Laid source'.toList start' r.segments' r.tokens'

theorem Indented.append (h : r.Indented w begins mid) (hq : q.Indented w mid ends) :
    (r.append q).Indented w begins ends :=
  Scan.Indented.append h hq

theorem indented_tag {segment : List Char} {t t' : Token} (hkind : t.kind ≠ .text)
    (hmoved : t.Moved t') (hline : t'.line = t.line) :
    (tag w begins segment t t').Indented w begins false :=
  .tag hkind hmoved hline .nil

theorem indented_text (segment : List Char) (line : Nat) :
    (text w begins segment line).Indented w begins
      (Token.ofText (String.ofList segment) line).endsLine :=
  .text .nil

/-- The first token is a piece of text. -/
theorem Indented.exists_text {t : Token} {rest : List Token} (h : r.Indented w begins ends)
    (hr : r.tokens = t :: rest) (hkind : t.kind = .text) :
    ∃ segment line q, t = .ofText (String.ofList segment) line ∧
      r = (text w begins segment line).append q ∧ q.Indented w t.endsLine ends ∧
      q.tokens = rest := by
  obtain ⟨segments, tokens, segments', tokens'⟩ := r
  dsimp only at hr
  subst hr
  cases h with
  | @text _ _ segment line segments segments' _ ts' hrest =>
    exact ⟨segment, line, ⟨segments, rest, segments', ts'⟩, rfl, rfl, hrest, rfl⟩
  | tag hother _ _ _ => exact absurd hkind hother

/-- The first token is a tag. -/
theorem Indented.exists_tag {t : Token} {rest : List Token} (h : r.Indented w begins ends)
    (hr : r.tokens = t :: rest) (hkind : t.kind ≠ .text) :
    ∃ segment t' q, r = (tag w begins segment t t').append q ∧ t.Moved t' ∧ t'.line = t.line ∧
      q.Indented w false ends ∧ q.tokens = rest := by
  obtain ⟨segments, tokens, segments', tokens'⟩ := r
  dsimp only at hr
  subst hr
  cases h with
  | text _ => exact absurd rfl hkind
  | @tag _ _ segment segments segments' _ t' _ ts' _ hmoved hline hrest =>
    refine ⟨segment, t', ⟨segments, rest, segments', ts'⟩, ?_, hmoved, hline, hrest, rfl⟩
    simp [Rows.append, tag, margin, marginToken]

end Rows

/-- The tokens between two tags of known segments lie on the segments between
theirs. -/
theorem Laid.between_tags {whole : List Char} {start : Cursor}
    {earlier between later : List (List Char)} {segment : List Char}
    {before inside after : List Token} {first last : Token}
    (h : Laid whole start (earlier ++ segment :: (between ++ later))
      (before ++ first :: (inside ++ last :: after)))
    (hearlier : earlier.length = before.length) (hbetween : between.length = inside.length)
    (hfirst : first.kind = .sectionTag) (hlast : last.kind = .closingTag) :
    ∃ next, Laid whole next between inside ∧ first.delimiters? = some next.delimiters ∧
      Text.slice? (first.offset?.getD 0) (last.offset?.getD (first.offset?.getD 0)) whole =
        some between.flatten := by
  obtain ⟨earlier', segment', between', later', next, hsegments, hlength, -, hlaid, hdelimiters,
    hslice⟩ := h.exists_between_tags (by rw [hfirst]; rfl) hlast
  have hmore := (List.append_inj hsegments (hearlier.trans hlength.symm)).2
  obtain ⟨rfl, -⟩ := List.append_inj (List.cons.inj hmore).2
    (hbetween.trans hlaid.length_eq.symm)
  exact ⟨next, hlaid, hdelimiters, hslice⟩

end Scan

namespace Tree

open Compile (sectionSource)
open Scan (Cursor Laid Indented Rows margin marginToken)

/-- **A section, and the same with white space where lines begin**: the tokens
inside lie on segments of the one template, and those with the white space on
segments of the other one. A closing tag that begins a line has the white space
in front of it. -/
structure IndentedAt (w : List Char) (source source' : String) (t t' : Token)
    (start start' : Cursor) (inside : Rows) (ends : Bool) (line : Nat) : Prop where
  indented : inside.Indented w false ends
  laid : Laid source.toList start inside.segments inside.tokens
  laid' : Laid source'.toList start' (inside.segments' ++ margin w ends)
    (inside.tokens' ++ marginToken w line ends)
  delimiters : t.delimiters? = some start.delimiters
  delimiters' : t'.delimiters? = t.delimiters?
  again : start'.delimiters = start.delimiters
  source_eq : sectionSource source t = String.ofList inside.segments.flatten
  source_eq' : sectionSource source' t' =
    String.ofList (inside.segments' ++ margin w ends).flatten

/-- There are such tokens inside. -/
def IndentedSection (w : List Char) (source source' : String) (t t' : Token) : Prop :=
  ∃ start start' inside ends line, IndentedAt w source source' t t' start start' inside ends line

section Sections

variable {w : List Char} {source source' : String} {t t' u u' first first' last last' : Token}

/-- The tokens go on with a tag. -/
theorem IndentedAt.closed {start start' : Cursor} {inside : Rows} {ends : Bool} {line : Nat}
    (h : IndentedAt w source source' t t' start start' inside ends line) :
    Indented w false (inside.segments ++ [['/']]) (inside.tokens ++ [.bare .closingTag line])
      (inside.segments' ++ margin w ends ++ [['/']])
      (inside.tokens' ++ marginToken w line ends ++ [.bare .closingTag line]) false := by
  rw [List.append_assoc, List.append_assoc]
  exact Indented.append h.indented (.tag nofun rfl rfl .nil)

/-- **Sections of one text have one text again**, and others have other texts. -/
theorem IndentedSection.source_eq_iff (ht : IndentedSection w source source' t t')
    (hu : IndentedSection w source source' u u') (hdelimiters : t.delimiters? = u.delimiters?) :
    sectionSource source t = sectionSource source u ↔
      sectionSource source' t' = sectionSource source' u' := by
  obtain ⟨start, start', inside, ends, line, ht⟩ := ht
  obtain ⟨start₁, start₁', within, ends₁, line₁, hu⟩ := hu
  have hstart : start₁.delimiters = start.delimiters := by
    rw [ht.delimiters, hu.delimiters] at hdelimiters
    exact (Option.some.inj hdelimiters).symm
  have hmoved {is js : List Token} (h : List.Forall₂ Token.Moved is js) (n m : Nat) :
      List.Forall₂ Token.Moved (is ++ [.bare .closingTag n]) (js ++ [.bare .closingTag m]) :=
    List.rel_append h (.cons rfl .nil)
  have hne {is : List (List Char)} (h : ∀ segment ∈ is, segment ≠ []) :
      ∀ segment ∈ is ++ [['/']], segment ≠ [] :=
    List.forall_mem_append.2 ⟨h, List.forall_mem_singleton.2 nofun⟩
  rw [ht.source_eq, hu.source_eq, ht.source_eq', hu.source_eq', String.ofList_inj,
    String.ofList_inj]
  constructor
  · intro hsame
    obtain ⟨hsegments, hinside⟩ := ht.laid.unique hu.laid hstart hsame
    have hwithin : Indented w false inside.segments within.tokens within.segments' within.tokens'
        ends₁ := hsegments ▸ hu.indented
    obtain ⟨hsegments', rfl⟩ := Indented.unique ht.indented hinside hwithin
    rw [hsegments']
  · intro hsame
    obtain ⟨heq, hinside⟩ := ht.laid'.unique hu.laid'
      (hu.again.trans (hstart.trans ht.again.symm)) hsame
    have hrows := ht.closed.injective hu.closed (by rw [heq]) (hmoved hinside _ _)
      (hne ht.laid.ne_nil) (hne hu.laid.ne_nil)
    rw [List.append_cancel_right hrows]

/-- **A section has its tokens between its tags** in both templates. -/
theorem indentedSection_of_tags {earlier inside later : Rows} {begins ends : Bool}
    {segment segment' : List Char}
    (hlaid : (earlier.append ((Rows.tag w begins segment first first').append
      (inside.append ((Rows.tag w ends segment' last last').append later)))).Laid source source')
    {starts : Bool} (hearlier : earlier.Indented w starts begins)
    (hinside : inside.Indented w false ends) (hfirst : first.kind = .sectionTag)
    (hfirst' : first.Moved first') (hlast : last.kind = .closingTag) (hlast' : last.Moved last')
    (hoffset : t.offset? = first.offset?) (hoffset' : t'.offset? = first'.offset?)
    (hdelimiters : t.delimiters? = first.delimiters?)
    (hdelimiters' : t'.delimiters? = first'.delimiters?)
    (hstop : t.stop? = last.offset?) (hstop' : t'.stop? = last'.offset?) :
    IndentedSection w source source' t t' := by
  obtain ⟨start, start', -, hlaid, hlaid'⟩ := hlaid
  obtain ⟨hlength, hlength'⟩ := Indented.length_eq hearlier
  obtain ⟨hbetween, hbetween'⟩ := Indented.length_eq hinside
  have hwhole : Laid source.toList start
      (earlier.segments ++ segment :: (inside.segments ++ segment' :: later.segments))
      (earlier.tokens ++ first :: (inside.tokens ++ last :: later.tokens)) := hlaid
  -- in the other text each tag that begins a line has the white space before it
  have hwhole' : Laid source'.toList start'
      ((earlier.segments' ++ margin w begins) ++
        segment :: ((inside.segments' ++ margin w ends) ++ segment' :: later.segments'))
      ((earlier.tokens' ++ marginToken w first.line begins) ++
        first' ::
          ((inside.tokens' ++ marginToken w last.line ends) ++ last' :: later.tokens')) := by
    simpa [Rows.append, Rows.tag] using hlaid'
  have hmargin (line : Nat) (begins : Bool) :
      (margin w begins).length = (marginToken w line begins).length := by cases begins <;> rfl
  obtain ⟨next, hnext, hfound, hslice⟩ := hwhole.between_tags hlength hbetween hfirst hlast
  obtain ⟨next', hnext', hfound', hslice'⟩ := hwhole'.between_tags
    (by rw [List.length_append, List.length_append, hlength', hmargin])
    (by rw [List.length_append, List.length_append, hbetween', hmargin])
    (hfirst'.kind.trans hfirst) (hlast'.kind.trans hlast)
  have hsame : first'.delimiters? = first.delimiters? := hfirst'.delimiters?
  refine ⟨next, next', inside, ends, last.line, hinside, hnext, hnext', hdelimiters.trans hfound,
    ?_, ?_, ?_, ?_⟩
  · rw [hdelimiters, hdelimiters', hsame]
  · rw [hfound, hfound'] at hsame
    exact Option.some.inj hsame
  · rw [sectionSource, hoffset, hstop, hslice]
    rfl
  · rw [sectionSource, hoffset', hstop', hslice']
    rfl

end Sections

end Tree

end Mustache
