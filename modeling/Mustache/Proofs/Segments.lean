import Mathlib.Data.List.Forall2
import Mustache.Proofs.Nodes
import Mustache.Proofs.Reads
/-!
# Mustache — the segments of a text

Every token is read off a segment of the text, and the segments stand one
after the other: offsets count their bytes. What is read off a segment
depends on the segment and on the delimiters in force, and neither on
where it stands nor on what follows, with one exception. A piece of text
ends where a tag begins, so the scanner looks ahead there; but it does not
look further than the opening delimiter of that tag.

So a part of a text that was scanned from one token to another is scanned
alike by itself (`Reads.cut`): its tokens are the same but for the places
where they stand.
-/

namespace Mustache

namespace Text

theorem byteLength_append (u v : List Char) :
    byteLength (u ++ v) = byteLength u + byteLength v := by
  have hfrom (n : Nat) (cs : List Char) :
      cs.foldl (fun n c => n + c.utf8Size) n = n + byteLength cs := by
    induction cs generalizing n with
    | nil => rfl
    | cons c cs ih =>
      rw [byteLength, List.foldl_cons, List.foldl_cons, ih, ih (0 + c.utf8Size)]
      omega
  rw [byteLength, List.foldl_append]
  exact hfrom _ v

theorem byteLength_cons (c : Char) (cs : List Char) :
    byteLength (c :: cs) = c.utf8Size + byteLength cs := by
  have h := byteLength_append [c] cs
  rw [List.singleton_append] at h
  rw [h]
  simp [byteLength]

/-- Some text takes some bytes. -/
theorem byteLength_pos {cs : List Char} (h : cs ≠ []) : 0 < byteLength cs := by
  obtain ⟨c, cs, rfl⟩ := List.exists_cons_of_ne_nil h
  rw [byteLength_cons]
  exact Nat.add_pos_left c.utf8Size_pos _

/-- Behind a text the bytes of it count first. -/
theorem dropBytes?_behind (u v : List Char) (n : Nat) :
    dropBytes? (byteLength u + n) (u ++ v) = dropBytes? n v := by
  induction u with
  | nil => rw [List.nil_append, show byteLength [] = 0 from rfl, Nat.zero_add]
  | cons c u ih =>
    have hsize := c.utf8Size_pos
    obtain ⟨m, hm⟩ : ∃ m, byteLength (c :: u) + n = m + 1 := by
      rw [byteLength_cons]
      exact ⟨c.utf8Size + byteLength u + n - 1, by omega⟩
    have hrest : m + 1 - c.utf8Size = byteLength u + n := by
      rw [← hm, byteLength_cons]
      omega
    have hle : c.utf8Size ≤ m + 1 := by
      rw [← hm, byteLength_cons]
      omega
    rw [hm, List.cons_append, dropBytes?, if_pos hle, hrest, ih]

theorem dropBytes?_append (u v : List Char) : dropBytes? (byteLength u) (u ++ v) = some v := by
  have hbehind := dropBytes?_behind u v 0
  rw [Nat.add_zero] at hbehind
  rw [hbehind]
  cases v <;> rfl

theorem takeBytes?_append (u v : List Char) : takeBytes? (byteLength u) (u ++ v) = some u := by
  induction u with
  | nil => cases v <;> rfl
  | cons c u ih =>
    have hsize := c.utf8Size_pos
    obtain ⟨n, hn⟩ : ∃ n, byteLength (c :: u) = n + 1 := by
      rw [byteLength_cons]
      exact ⟨c.utf8Size + byteLength u - 1, by omega⟩
    have hrest : n + 1 - c.utf8Size = byteLength u := by
      rw [← hn, byteLength_cons]
      omega
    have hle : c.utf8Size ≤ n + 1 := by
      rw [← hn, byteLength_cons]
      omega
    rw [hn, List.cons_append, takeBytes?, if_pos hle, hrest, ih]
    rfl

/-- The part of a text between two of its places. -/
theorem slice?_append (u v w : List Char) :
    slice? (byteLength u) (byteLength u + byteLength v) (u ++ (v ++ w)) = some v := by
  rw [slice?, if_pos (Nat.le_add_right _ _), dropBytes?_append, Option.bind_some,
    Nat.add_sub_cancel_left, takeBytes?_append]

/-- Whether a pattern stands at the start of a text is decided by as many
characters as it has. -/
theorem after?_eq_none_append {pattern cs : List Char} (hlen : pattern.length ≤ cs.length)
    {more : List Char} (h : after? pattern (cs ++ more) = none) (others : List Char) :
    after? pattern (cs ++ others) = none := by
  induction pattern generalizing cs with
  | nil => cases h
  | cons p ps ih =>
    cases cs with
    | nil => cases hlen
    | cons c cs =>
      rw [List.cons_append, after?] at h ⊢
      by_cases hpc : p = c
      · rw [if_pos hpc] at h ⊢
        exact ih (Nat.le_of_succ_le_succ hlen) h
      · rw [if_neg hpc]

/-- **Where a text is cut** does not depend on what follows the cut. -/
theorem cutAt?_again {pattern cs inside rest : List Char}
    (h : cutAt? pattern cs = some (inside, rest)) (others : List Char) :
    cutAt? pattern (inside ++ (pattern ++ others)) = some (inside, others) := by
  have hhere (others : List Char) : cutAt? pattern (pattern ++ others) = some ([], others) := by
    cases hcs : pattern ++ others with
    | nil =>
      obtain ⟨rfl, rfl⟩ := List.append_eq_nil_iff.1 hcs
      rfl
    | cons c r => rw [cutAt?, ← hcs, after?_append]
  induction cs generalizing inside rest with
  | nil =>
    rw [cutAt?] at h
    split at h
    · cases h
      exact hhere others
    · cases h
  | cons c r ih =>
    rw [cutAt?] at h
    split at h
    · cases h
      exact hhere others
    · next hnone =>
      obtain ⟨⟨before, after⟩, hcut, heq⟩ := Option.map_eq_some_iff.1 h
      cases heq
      have hr := cutAt?_eq_some hcut
      -- what is cut off is at least as long as the pattern, so nothing after it counts
      have hclosed : after? pattern ((c :: before ++ pattern) ++ others) = none := by
        have hlen : pattern.length ≤ (c :: before ++ pattern).length := by
          rw [List.length_append]
          exact Nat.le_add_left _ _
        have hnone : after? pattern ((c :: before ++ pattern) ++ after) = none := by
          rw [List.cons_append, List.cons_append, ← hr]
          exact hnone
        exact after?_eq_none_append hlen hnone others
      rw [List.cons_append, List.cons_append, List.append_assoc] at hclosed
      rw [List.cons_append, cutAt?, hclosed, ih hcut]
      rfl

end Text

/-- A token at another place: line and offset may differ. -/
def Token.Moved (t u : Token) : Prop := u = { t with line := u.line, offset? := u.offset? }

namespace Scan

open Text (byteLength byteLength_append)

/-! ## Reading a tag -/

/-- A part of the scanner that reads the rest of a tag. -/
abbrev Reader := Cursor → Nat → List Char → Except Error Step

/-- **A reader takes a segment**: the offset moves on by its bytes, and from
any place with the same delimiters, whatever follows, the reader takes it
again. -/
structure Takes (read : Reader) (start : Cursor) (offset : Nat) (segment : List Char)
    (step : Step) : Prop where
  offset : step.next.offset = offset + byteLength segment
  ne_nil : start.closing ≠ [] → segment ≠ []
  again : ∀ (start' : Cursor) (offset' : Nat) (rest' : List Char),
    start'.delimiters = start.delimiters →
      ∃ step', read start' offset' (segment ++ rest') = .ok step' ∧ step'.rest = rest' ∧
        step.token.Moved step'.token ∧ step'.next.delimiters = step.next.delimiters

theorem moved_tagToken {start start' : Cursor} (h : start'.delimiters = start.delimiters)
    (kind : TokenKind) (name : List Char) (offset offset' : Nat) :
    (tagToken start kind name offset).Moved (tagToken start' kind name offset') := by
  unfold Token.Moved tagToken
  rw [h]
  rfl

theorem closing_eq {start start' : Cursor} (h : start'.delimiters = start.delimiters) :
    start'.closing = start.closing := congrArg (·.closing.toList) h

theorem takes_readNamed {start : Cursor} {kind : TokenKind} {offset : Nat} {cs : List Char}
    {step : Step} (h : readNamed start kind offset cs = .ok step) :
    ∃ segment, cs = segment ++ step.rest ∧
      Takes (fun c => readNamed c kind) start offset segment step := by
  have hcut {inside rest : List Char} (hcut : Text.cutAt? start.closing cs = some (inside, rest)) :
      cs = inside ++ (start.closing ++ rest) := by
    rw [Text.cutAt?_eq_some hcut, List.append_assoc]
  -- the closing delimiter is found at the same place whatever follows it
  have hagain {inside rest : List Char}
      (hcut : Text.cutAt? start.closing cs = some (inside, rest)) {start' : Cursor}
      (hd : start'.delimiters = start.delimiters) (rest' : List Char) :
      Text.cutAt? start'.closing (inside ++ (start.closing ++ rest')) = some (inside, rest') := by
    rw [closing_eq hd]
    exact Text.cutAt?_again hcut rest'
  have hne (inside : List Char) : start.closing ≠ [] → inside ++ start.closing ≠ [] :=
    List.append_ne_nil_of_right_ne_nil inside
  cases named_of_readNamed h with
  | @plain inside rest hfirst htriple =>
    refine ⟨inside ++ start.closing, by simp [hcut hfirst], ?_, hne inside, ?_⟩
    · simp only [byteLength_append]
      omega
    · intro start' offset' rest' hd
      rw [List.append_assoc]
      exact ⟨_, (Named.plain (hagain hfirst hd rest') htriple).readNamed_eq, rfl,
        moved_tagToken hd _ _ _ _, hd⟩
  | @braceBehind inside rest hfirst htriple hbraces =>
    refine ⟨inside ++ (start.closing ++ ['\x7d']), by simp [hcut hfirst], ?_, by simp, ?_⟩
    · simp only [byteLength_append]
      rw [show byteLength ['\x7d'] = 1 by decide]
      omega
    · intro start' offset' rest' hd
      rw [List.append_assoc, List.append_assoc, List.singleton_append]
      exact ⟨_, (Named.braceBehind (hagain hfirst hd _) htriple (hd ▸ hbraces)).readNamed_eq, rfl,
        moved_tagToken hd _ _ _ _, hd⟩
  | @braceInside inside rest hfirst htriple hbraces hlast =>
    refine ⟨inside ++ start.closing, by simp [hcut hfirst], ?_, hne inside, ?_⟩
    · simp only [byteLength_append]
      omega
    · intro start' offset' rest' hd
      rw [List.append_assoc]
      exact ⟨_, (Named.braceInside (hagain hfirst hd rest') htriple (hd ▸ hbraces)
        hlast).readNamed_eq, rfl, moved_tagToken hd _ _ _ _, hd⟩

theorem takes_readDelimiters {start : Cursor} {offset : Nat} {cs : List Char} {step : Step}
    (h : readDelimiters start offset cs = .ok step) :
    ∃ segment, cs = segment ++ step.rest ∧ Takes readDelimiters start offset segment step := by
  unfold readDelimiters at h
  split at h
  · cases h
  · next inside rest hcut =>
    have hcs : cs = inside ++ ('=' :: start.closing ++ rest) := by
      rw [Text.cutAt?_eq_some hcut, List.append_assoc]
    dsimp only at h
    split at h
    · cases h
    · next delimiters hspec =>
      cases h
      refine ⟨inside ++ '=' :: start.closing, by simp [hcs], ?_, by simp, ?_⟩
      · simp only [byteLength_append]
        omega
      · intro start' offset' rest' hd
        rw [List.append_assoc, readDelimiters, closing_eq hd, Text.cutAt?_again hcut rest']
        dsimp only
        rw [hspec]
        exact ⟨_, rfl, rfl, rfl, rfl⟩

theorem takes_readPragma {start : Cursor} {offset : Nat} {cs : List Char} {step : Step}
    (h : readPragma start offset cs = .ok step) :
    ∃ segment, cs = segment ++ step.rest ∧ Takes readPragma start offset segment step := by
  unfold readPragma at h
  split at h
  · cases h
  · next inside rest hcut =>
    have hcs : cs = inside ++ (start.closing ++ rest) := by
      rw [Text.cutAt?_eq_some hcut, List.append_assoc]
    cases h
    refine ⟨inside ++ start.closing, by simp [hcs], ?_,
      List.append_ne_nil_of_right_ne_nil inside, ?_⟩
    · simp only [byteLength_append]
      omega
    · intro start' offset' rest' hd
      rw [List.append_assoc, readPragma, closing_eq hd, Text.cutAt?_again hcut rest']
      exact ⟨_, rfl, rfl, rfl, hd⟩

/-- What stands between the opening delimiter and the rest of a tag: a sigil,
or nothing. -/
theorem takes_readTag {start : Cursor} {cs : List Char} {step : Step}
    (h : readTag start cs = .ok step) (hclosing : start.closing ≠ []) :
    ∃ segment, cs = segment ++ step.rest ∧
      Takes (fun c _ => readTag c) start (start.offset + byteLength start.opening) segment
        step := by
  unfold readTag at h
  dsimp only at h
  split at h
  · -- nothing follows, so the tag is not closed
    unfold readNamed at h
    rw [Text.cutAt?, if_neg (by simpa using hclosing)] at h
    cases h
  · next c r =>
    have hsigil {read : Reader} {offset : Nat} (hoffset : offset =
        start.offset + byteLength start.opening + c.utf8Size)
        (hread : ∀ (start' : Cursor) r', readTag start' (c :: r') =
          read start' (start'.offset + byteLength start'.opening + c.utf8Size) r')
        (htakes : ∃ segment, r = segment ++ step.rest ∧ Takes read start offset segment step) :
        ∃ segment, c :: r = segment ++ step.rest ∧ Takes (fun c _ => readTag c) start
          (start.offset + byteLength start.opening) segment step := by
      obtain ⟨segment, hr, htakes⟩ := htakes
      refine ⟨c :: segment, by rw [hr]; rfl, ?_, fun _ => List.cons_ne_nil c segment, ?_⟩
      · rw [htakes.offset, hoffset, Text.byteLength_cons]
        omega
      · intro start' _ rest' hd
        rw [List.cons_append, hread]
        exact htakes.again start' _ rest' hd
    split at h
    · next hplain =>
      obtain ⟨segment, hr, htakes⟩ := takes_readNamed h
      refine ⟨segment, hr, htakes.offset, htakes.ne_nil, ?_⟩
      intro start' _ rest' hd
      obtain ⟨d, segment, rfl⟩ := List.exists_cons_of_ne_nil (htakes.ne_nil hclosing)
      obtain ⟨rfl, -⟩ := List.cons.inj hr
      have hread : readTag start' (c :: (segment ++ rest')) = readNamed start' .escaped
          (start'.offset + byteLength start'.opening) (c :: (segment ++ rest')) := by
        simp only [readTag, hplain]
      rw [List.cons_append, hread]
      exact htakes.again start' _ rest' hd
    · next hkind =>
      refine hsigil rfl (fun start' r' => ?_) (takes_readDelimiters h)
      simp only [readTag, hkind]
    · next hkind =>
      refine hsigil rfl (fun start' r' => ?_) (takes_readPragma h)
      simp only [readTag, hkind]
    · next kind hdelimiters hpragma hkind =>
      refine hsigil rfl (fun start' r' => ?_) (takes_readNamed h)
      simp only [readTag, hkind]

/-- **A tag is read off a segment** that begins with the opening delimiter,
and read off it again from any place with the same delimiters. -/
structure TagSegment (start : Cursor) (segment : List Char) (step : Step) : Prop where
  offset : step.next.offset = start.offset + byteLength segment
  opened : (opened? start.opening segment).isSome = true
  again : ∀ (start' : Cursor) (rest' : List Char), start'.delimiters = start.delimiters →
    ∃ step', readToken start' (segment ++ rest') = .ok step' ∧ step'.rest = rest' ∧
      step.token.Moved step'.token ∧ step'.next.delimiters = step.next.delimiters

theorem exists_tagSegment {start : Cursor} {cs inside : List Char} {step : Step}
    (hopened : opened? start.opening cs = some inside) (h : readToken start cs = .ok step)
    (hclosing : start.closing ≠ []) :
    ∃ segment, cs = segment ++ step.rest ∧ TagSegment start segment step := by
  obtain ⟨hne, rfl⟩ := opened?_eq_some hopened
  rw [readToken_opening hne] at h
  obtain ⟨segment, rfl, htakes⟩ := takes_readTag h hclosing
  refine ⟨start.opening ++ segment, by rw [List.append_assoc], ?_, ?_, ?_⟩
  · rw [htakes.offset, byteLength_append]
    omega
  · rw [opened?, if_neg (by simpa using hne), Text.after?_append]
    rfl
  · intro start' rest' hd
    have hopening : start'.opening = start.opening := congrArg (·.opening.toList) hd
    rw [List.append_assoc, ← hopening, readToken_opening (by rw [hopening]; exact hne)]
    exact htakes.again start' 0 rest' hd

/-! ## Reading a piece of text -/

/-- **A piece of text** with what follows it: no opening delimiter begins in
it, a newline ends it, and it ends with one, before a tag or with the
text. -/
structure TextSegment (opening piece rest : List Char) : Prop where
  closed : Unopened opening piece rest
  newline : '\n' ∉ piece.dropLast
  ends : piece.getLast? = some '\n' ∨ rest = [] ∨ (opened? opening rest).isSome = true

theorem textSegment_chunk (opening cs : List Char) :
    cs = (chunk opening cs).1 ++ (chunk opening cs).2 ∧
      TextSegment opening (chunk opening cs).1 (chunk opening cs).2 := by
  induction cs with
  | nil =>
    exact ⟨rfl, fun v hne hv => absurd (List.suffix_nil.1 hv) hne, List.not_mem_nil,
      .inr (.inl rfl)⟩
  | cons c r ih =>
    rw [chunk]
    split
    · next hopened =>
      exact ⟨rfl, fun v hne hv => absurd (List.suffix_nil.1 hv) hne, List.not_mem_nil,
        .inr (.inr hopened)⟩
    · next hclosed =>
      have hclosed : opened? opening (c :: r) = none := by simpa using hclosed
      split
      · next hc =>
        refine ⟨rfl, ?_, List.not_mem_nil, .inl (by rw [hc]; rfl)⟩
        intro v hne hv
        rcases List.suffix_cons_iff.1 hv with rfl | hv
        · exact hclosed
        · exact absurd (List.suffix_nil.1 hv) hne
      · next hc =>
        -- the piece goes on: no delimiter opens here, nor further on by induction
        obtain ⟨hr, hih⟩ := ih
        refine ⟨congrArg (c :: ·) hr, ?_, ?_, ?_⟩
        · intro v hne hv
          rcases List.suffix_cons_iff.1 hv with rfl | hv
          · rw [List.cons_append, ← hr]
            exact hclosed
          · exact hih.closed v hne hv
        · dsimp only
          cases hpiece : (chunk opening r).1 with
          | nil => exact List.not_mem_nil
          | cons d piece =>
            have hnewline := hih.newline
            rw [hpiece] at hnewline
            rw [List.dropLast_cons_cons, List.mem_cons, not_or]
            exact ⟨Ne.symm hc, hnewline⟩
        · dsimp only
          cases hpiece : (chunk opening r).1 with
          | nil =>
            have hends := hih.ends
            rw [hpiece] at hends
            exact .inr (hends.resolve_left (Option.some_ne_none _).symm)
          | cons d piece =>
            have hends := hih.ends
            rw [hpiece] at hends
            rw [List.getLast?_cons_cons]
            exact hends

/-- A piece of text is what is cut off. -/
theorem TextSegment.chunk_eq {opening piece rest : List Char}
    (h : TextSegment opening piece rest) : chunk opening (piece ++ rest) = (piece, rest) := by
  induction piece with
  | nil =>
    have hends := h.ends.resolve_left (Option.some_ne_none _).symm
    cases rest with
    | nil => rfl
    | cons c r =>
      rw [List.nil_append, chunk, if_pos (hends.resolve_left (List.cons_ne_nil c r))]
  | cons c piece ih =>
    have hclosed : opened? opening (c :: (piece ++ rest)) = none :=
      h.closed (c :: piece) (List.cons_ne_nil c piece) List.suffix_rfl
    rw [List.cons_append, chunk, hclosed, Option.isSome_none, if_neg (by decide)]
    cases piece with
    | nil =>
      split
      · rfl
      · next hc =>
        have hrest : TextSegment opening [] rest := by
          refine ⟨h.closed.tail, List.not_mem_nil, .inr (h.ends.resolve_left ?_)⟩
          rintro heq
          exact hc (Option.some.inj heq)
        rw [ih hrest]
    | cons d piece =>
      have hnewline := h.newline
      rw [List.dropLast_cons_cons, List.mem_cons, not_or] at hnewline
      have hends := h.ends
      rw [List.getLast?_cons_cons] at hends
      rw [if_neg (Ne.symm hnewline.1), ih ⟨h.closed.tail, hnewline.2, hends⟩]

/-- Without what follows, a piece of text ends where it did, unless this cuts
into the opening delimiter that ends it. -/
theorem TextSegment.of_append {opening piece more rest : List Char}
    (h : TextSegment opening piece (more ++ rest))
    (hmore : more ≠ [] → (opened? opening (more ++ rest)).isSome = true →
      (opened? opening more).isSome = true) : TextSegment opening piece more := by
  refine ⟨fun v hv hsuffix => ?_, h.newline, ?_⟩
  · have hv := h.closed v hv hsuffix
    cases hopened : opened? opening (v ++ more) with
    | none => rfl
    | some inside =>
      obtain ⟨hopening, heq⟩ := opened?_eq_some hopened
      rw [← List.append_assoc, heq, List.append_assoc, opened?, if_neg (by simpa using hopening),
        Text.after?_append] at hv
      cases hv
  · by_cases hnil : more = []
    · exact .inr (.inl hnil)
    · rcases h.ends with hends | hends | hends
      · exact .inl hends
      · exact absurd (List.append_eq_nil_iff.1 hends).1 hnil
      · exact .inr (.inr (hmore hnil hends))

/-! ## Reading on -/

/-- **A part of a text that is scanned alike by itself**: from any place with
the same delimiters it is read to its end, and to the same tokens at other
places. A tag that begins it begins it still. -/
structure Span (start : Cursor) (segment rest : List Char) (ts : List Token) (stop : Cursor) :
    Prop where
  offset : stop.offset = start.offset + byteLength segment
  opened : segment ≠ [] → (opened? start.opening (segment ++ rest)).isSome = true →
    (opened? start.opening segment).isSome = true
  again : ∀ start' : Cursor, start'.delimiters = start.delimiters →
    ∃ ts' stop', Reads start' segment ts' stop' [] ∧ List.Forall₂ Token.Moved ts ts' ∧
      stop'.delimiters = stop.delimiters

/-- What begins a text that is scanned after a tag. -/
theorem Span.cons_tag {start stop : Cursor} {segment more rest : List Char} {step : Step}
    {ts : List Token} (htag : TagSegment start segment step)
    (hspan : Span step.next more rest ts stop) :
    Span start (segment ++ more) rest (step.token :: ts) stop := by
  have hopened : (opened? start.opening (segment ++ more)).isSome = true := by
    obtain ⟨inside, hinside⟩ := Option.isSome_iff_exists.1 htag.opened
    obtain ⟨hne, rfl⟩ := opened?_eq_some hinside
    rw [List.append_assoc, opened?, if_neg (by simpa using hne), Text.after?_append]
    rfl
  refine ⟨?_, fun _ _ => hopened, ?_⟩
  · rw [hspan.offset, htag.offset, byteLength_append]
    omega
  · intro start' hd
    obtain ⟨step', hread, hrest, hmoved, hnext⟩ := htag.again start' more hd
    obtain ⟨ts', stop', hreads, hmore, hstop⟩ := hspan.again step'.next hnext
    have hne : segment ++ more ≠ [] := by
      intro heq
      rw [heq] at hopened
      obtain ⟨inside, hinside⟩ := Option.isSome_iff_exists.1 hopened
      obtain ⟨hne, heq⟩ := opened?_eq_some hinside
      exact hne (List.append_eq_nil_iff.1 heq.symm).1
    exact ⟨_, stop', .cons hne hread (hrest ▸ hreads), .cons hmoved hmore, hstop⟩

/-- What begins a text that is scanned after a piece of text. -/
theorem Span.cons_text {start stop : Cursor} {piece more rest : List Char} {ts : List Token}
    (hpiece : TextSegment start.opening piece (more ++ rest)) (hne : piece ≠ [])
    (hspan : Span (readText start (piece ++ (more ++ rest))).next more rest ts stop) :
    Span start (piece ++ more) rest
      ((readText start (piece ++ (more ++ rest))).token :: ts) stop := by
  have hchunk := hpiece.chunk_eq
  have hclosed : opened? start.opening (piece ++ (more ++ rest)) = none :=
    hpiece.closed piece hne List.suffix_rfl
  -- the piece ends at the same place when only the span follows it
  have hcut := hpiece.of_append hspan.opened
  refine ⟨?_, fun _ hopened => ?_, ?_⟩
  · rw [hspan.offset, byteLength_append, readText, hchunk]
    dsimp only
    omega
  · rw [List.append_assoc, hclosed] at hopened
    cases hopened
  · intro start' hd
    have hopening : start'.opening = start.opening := congrArg (·.opening.toList) hd
    have hread : readToken start' (piece ++ more) = .ok (readText start' (piece ++ more)) := by
      rw [readToken, hopening, hcut.closed piece hne List.suffix_rfl]
    have hchunk' : chunk start'.opening (piece ++ more) = (piece, more) := by
      rw [hopening]
      exact hcut.chunk_eq
    have hnext : (readText start' (piece ++ more)).next.delimiters =
        (readText start (piece ++ (more ++ rest))).next.delimiters := by
      rw [readText, readText]
      exact hd
    obtain ⟨ts', stop', hreads, hmoved, hstop⟩ := hspan.again _ hnext
    have hrest : (readText start' (piece ++ more)).rest = more := by rw [readText, hchunk']
    have htoken : (readText start (piece ++ (more ++ rest))).token.Moved
        (readText start' (piece ++ more)).token := by
      rw [readText, readText, hchunk, hchunk']
      rfl
    have hreads' : Reads (readText start' (piece ++ more)).next
        (readText start' (piece ++ more)).rest ts' stop' [] := by
      rw [hrest]
      exact hreads
    exact ⟨_, stop', .cons (List.append_ne_nil_of_left_ne_nil hne more) hread hreads',
      .cons htoken hmoved, hstop⟩

/-- **What was scanned from one token to another is scanned alike by
itself.** -/
theorem Reads.exists_span {start stop : Cursor} {cs rest : List Char} {ts : List Token}
    (h : Reads start cs ts stop rest) (hstart : start.delimiters.Accepted) :
    ∃ segment, cs = segment ++ rest ∧ Span start segment rest ts stop := by
  induction h with
  | nil start cs =>
    refine ⟨[], rfl, rfl, fun hne => absurd rfl hne, fun start' hd => ?_⟩
    exact ⟨[], start', .nil _ _, .nil, hd⟩
  | @cons start stop cs rest step ts hne hread _ ih =>
    obtain ⟨more, hmore, hspan⟩ := ih (readToken_accepted hread hstart).2
    cases hopened : opened? start.opening cs with
    | some inside =>
      obtain ⟨segment, hcs, htag⟩ := exists_tagSegment hopened hread hstart.ne_nil.2
      exact ⟨segment ++ more, by rw [hcs, hmore, List.append_assoc], hspan.cons_tag htag⟩
    | none =>
      rw [readToken, hopened] at hread
      cases hread
      obtain ⟨hcs, hpiece⟩ := textSegment_chunk start.opening cs
      generalize hp : (chunk start.opening cs).1 = piece at hcs hpiece
      change (chunk start.opening cs).2 = more ++ rest at hmore
      rw [hmore] at hcs hpiece
      -- there is something to read and no tag begins with it
      have hpiece_ne : piece ≠ [] := by
        rintro rfl
        rw [List.nil_append] at hcs
        rcases hpiece.ends with h | h | h
        · cases h
        · exact hne (hcs.trans h)
        · rw [← hcs, hopened] at h
          cases h
      subst hcs
      exact ⟨piece ++ more, by rw [List.append_assoc], hspan.cons_text hpiece hpiece_ne⟩

/-! ## The text of a section -/

/-- A named tag that is not in triple braces says which delimiters are in
force, and they stay so. A closing tag says where it begins, any other tag
where it ends. -/
theorem readNamed_place {start : Cursor} {kind : TokenKind} {offset : Nat} {cs : List Char}
    {step : Step} (h : readNamed start kind offset cs = .ok step) (hkind : kind ≠ .tripleBrace) :
    step.token.delimiters? = some start.delimiters ∧ step.next.delimiters = start.delimiters ∧
      step.token.offset? =
        some (if kind = .closingTag then start.offset else step.next.offset) := by
  cases named_of_readNamed h with
  | plain => exact ⟨rfl, rfl, rfl⟩
  | braceBehind _ htriple | braceInside _ htriple => exact absurd htriple hkind

theorem readToken_place {start : Cursor} {cs : List Char} {step : Step}
    (h : readToken start cs = .ok step)
    (hkind : step.token.kind = .sectionTag ∨ step.token.kind = .closingTag) :
    step.token.delimiters? = some start.delimiters ∧ step.next.delimiters = start.delimiters ∧
      step.token.offset? =
        some (if step.token.kind = .closingTag then start.offset else step.next.offset) := by
  unfold readToken at h
  split at h
  · rcases readTag_cases h with ⟨kind, offset, cs', -, -, h⟩ | ⟨offset, cs', h⟩ |
      ⟨offset, cs', h⟩
    · rw [readNamed_kind h] at hkind ⊢
      refine readNamed_place h ?_
      rintro rfl
      rcases hkind with hkind | hkind <;> cases hkind
    · rw [readDelimiters_kind h] at hkind
      rcases hkind with hkind | hkind <;> cases hkind
    · rw [readPragma_kind h] at hkind
      rcases hkind with hkind | hkind <;> cases hkind
  · cases h
    rcases hkind with hkind | hkind <;> cases hkind

/-- **The delimiters in force at a section tag**: the scanner has them when
it comes to the tag. The tag is told by its offset. -/
def InForce (delimiters : Delimiters) (source : String) (t : Token) (d : Delimiters) : Prop :=
  ∃ before start rest step, Reads ⟨0, 0, delimiters⟩ source.toList before start rest ∧
    readToken start rest = .ok step ∧ step.token.kind = .sectionTag ∧
    step.token.offset? = t.offset? ∧ start.delimiters = d

/-- Every token leaves less to read. -/
theorem Reads.length_le {start stop : Cursor} {cs rest : List Char} {ts : List Token}
    (h : Reads start cs ts stop rest) : rest.length ≤ cs.length := by
  induction h with
  | nil => exact Nat.le_refl _
  | @cons start stop cs rest step ts hne hread _ ih =>
    obtain ⟨c, r, rfl⟩ := List.exists_cons_of_ne_nil hne
    exact Nat.le_trans ih (Nat.le_of_lt (readToken_length hread))

/-- What is read up to a place is read in one way only. -/
theorem Reads.tokens_unique {start stop stop' : Cursor} {cs rest : List Char}
    {ts ts' : List Token} (h : Reads start cs ts stop rest) (h' : Reads start cs ts' stop' rest) :
    ts = ts' := by
  induction h generalizing ts' with
  | nil start cs =>
    cases h' with
    | nil => rfl
    | cons hne hread hmore =>
      obtain ⟨c, r, rfl⟩ := List.exists_cons_of_ne_nil hne
      exact absurd (readToken_length hread) (Nat.not_lt.2 hmore.length_le)
  | cons hne hread hmore ih =>
    cases h' with
    | nil =>
      obtain ⟨c, r, rfl⟩ := List.exists_cons_of_ne_nil hne
      exact absurd (readToken_length hread) (Nat.not_lt.2 hmore.length_le)
    | cons _ hread' hmore' =>
      cases hread.symm.trans hread'
      rw [ih hmore']

/-- **One pair of delimiters is in force at a section tag.** -/
theorem InForce.unique {delimiters d d' : Delimiters} (hd : delimiters.Accepted) {source : String}
    {t : Token} (h : InForce delimiters source t d) (h' : InForce delimiters source t d') :
    d = d' := by
  obtain ⟨before, start, rest, step, hreads, hread, hkind, hoffset, rfl⟩ := h
  obtain ⟨before', start', rest', step', hreads', hread', hkind', hoffset', rfl⟩ := h'
  -- both ways go on to the place that the offset tells
  have hway {before : List Token} {start : Cursor} {rest : List Char} {step : Step}
      (hreads : Reads ⟨0, 0, delimiters⟩ source.toList before start rest)
      (hread : readToken start rest = .ok step) (hkind : step.token.kind = .sectionTag)
      (hoffset : step.token.offset? = t.offset?) :
      Reads ⟨0, 0, delimiters⟩ source.toList (before ++ [step.token]) step.next step.rest ∧
        Text.dropBytes? (t.offset?.getD 0) source.toList = some step.rest := by
    have hne : rest ≠ [] := by
      rintro rfl
      unfold readToken at hread
      split at hread
      · next hopened => exact absurd (opened?_length hopened) (Nat.not_lt_zero _)
      · cases hread
        cases hkind
    have hwhole := hreads.append (.single hne hread)
    obtain ⟨segment, hsource, hspan⟩ := hwhole.exists_span hd
    obtain ⟨-, -, hplace⟩ := readToken_place hread (.inl hkind)
    rw [hkind, if_neg nofun] at hplace
    refine ⟨hwhole, ?_⟩
    rw [← hoffset, hplace, Option.getD_some, hspan.offset, hsource, Nat.zero_add]
    exact Text.dropBytes?_append _ _
  obtain ⟨hwhole, hdrop⟩ := hway hreads hread hkind hoffset
  obtain ⟨hwhole', hdrop'⟩ := hway hreads' hread' hkind' hoffset'
  have hrest : step.rest = step'.rest := Option.some.inj (hdrop.symm.trans hdrop')
  rw [← hrest] at hwhole'
  have htokens := List.append_inj_left' (hwhole.tokens_unique hwhole') rfl
  rw [← htokens] at hreads'
  rw [(hreads.unique hreads').1]

/-- The text between two tags is what the scanner has read between them, and
by itself it is scanned alike. -/
structure Between (delimiters : Delimiters) (source : String) (first last : Token)
    (inside : List Token) (d : Delimiters) (text : List Char) : Prop where
  inForce : InForce delimiters source first d
  accepted : d.Accepted
  delimiters : first.delimiters? = some d
  slice : Text.slice? (first.offset?.getD 0) (last.offset?.getD (first.offset?.getD 0))
    source.toList = some text
  rescanned : ∃ tokens, tokensFrom ⟨0, 0, d⟩ text = .ok tokens ∧
    List.Forall₂ Token.Moved inside tokens

/-- **The text of a section is scanned alike by itself**, from the delimiters
in force at its tag. -/
theorem exists_between_tags {delimiters : Delimiters} (hd : delimiters.Accepted)
    {source : String} {before inside after : List Token} {first last : Token}
    (h : tokensFrom ⟨0, 0, delimiters⟩ source.toList =
      .ok (before ++ first :: (inside ++ last :: after)))
    (hfirst : first.kind = .sectionTag) (hlast : last.kind = .closingTag) :
    ∃ d text, Between delimiters source first last inside d text := by
  obtain ⟨stop, hreads⟩ := tokensFrom_eq_ok_iff.1 h
  obtain ⟨start, rest, hbefore, hreads⟩ := hreads.exists_between
  have hstart : start.delimiters.Accepted :=
    hbefore.invariant (P := fun c => c.delimiters.Accepted)
      (fun _ _ _ hread hc => (readToken_accepted hread hc).2) hd
  cases hreads with
  | @cons _ _ _ _ step _ hne hread hmore =>
    obtain ⟨hdelimiters, hnext, hoffset⟩ := readToken_place hread (.inl hfirst)
    have haccepted : step.next.delimiters.Accepted := hnext ▸ hstart
    obtain ⟨mid, rest', hinside, hreads⟩ := hmore.exists_between
    cases hreads with
    | @cons _ _ _ _ step' _ hne' hread' hmore' =>
      obtain ⟨-, -, hoffset'⟩ := readToken_place hread' (.inr hlast)
      -- the text is what precedes the tag, the tag, what is inside and what follows
      obtain ⟨u, hu, hspan⟩ := hbefore.exists_span hd
      obtain ⟨v, hv, htag⟩ := (Reads.single hne hread).exists_span hstart
      obtain ⟨w, hw, hinner⟩ := hinside.exists_span haccepted
      have hsource : source.toList = (u ++ v) ++ (w ++ rest') := by
        rw [hu, hv, hw, List.append_assoc]
      have hplace : step.next.offset = byteLength (u ++ v) := by
        rw [htag.offset, hspan.offset, byteLength_append, Nat.zero_add]
      have hplace' : mid.offset = byteLength (u ++ v) + byteLength w := by
        rw [hinner.offset, hplace]
      obtain ⟨tokens, stop', hagain, hmoved, -⟩ := hinner.again ⟨0, 0, start.delimiters⟩ hnext.symm
      refine ⟨start.delimiters, w, ?_⟩
      constructor
      · exact ⟨before, start, rest, step, hbefore, hread, hfirst, rfl, rfl⟩
      · exact hstart
      · exact hdelimiters
      · rw [hfirst, if_neg nofun] at hoffset
        rw [hlast, if_pos rfl] at hoffset'
        rw [hoffset, hoffset', Option.getD_some, Option.getD_some, hplace, hplace', hsource]
        exact Text.slice?_append _ _ _
      · exact ⟨tokens, tokensFrom_eq_ok_iff.2 ⟨stop', hagain⟩, hmoved⟩

end Scan

end Mustache
