import Mustache.Proofs.Grown
import Mustache.Proofs.Tiling
/-!
# Mustache — sections of one text have the same sections inside

A section has a part of the text to itself, with its own tokens on its own
segments, and its nodes grow out of these (`SectionAt`). What is read there
depends on the text of the section and on the delimiters at its tag, and on
nothing that stands elsewhere (`Laid.unique`). So two sections of one text
under the same delimiters, wherever they stand, have the same sections inside,
again with the same texts and delimiters (`SectionAt.exists_same`), and what
is inside has a shorter text (`SectionAt.shorter`).
-/

namespace Mustache

/-! ## Tokens at other places -/

namespace Token.Moved

variable {t u v : Token}

theorem refl (t : Token) : t.Moved t := by
  cases t
  rfl

theorem symm (h : t.Moved u) : u.Moved t := by
  obtain ⟨line, offset?, rfl⟩ := h.exists_eq
  cases t
  rfl

theorem trans (h : t.Moved u) (h' : u.Moved v) : t.Moved v := by
  obtain ⟨line, offset?, rfl⟩ := h.exists_eq
  obtain ⟨line', offset?', rfl⟩ := h'.exists_eq
  rfl

theorem delimiters? (h : t.Moved u) : u.delimiters? = t.delimiters? := by
  obtain ⟨line, offset?, rfl⟩ := h.exists_eq
  rfl

/-- Tokens at other places are of the same kinds. -/
theorem map_kind {ts us : List Token} (h : List.Forall₂ Token.Moved ts us) :
    us.map (·.kind) = ts.map (·.kind) := by
  induction h with
  | nil => rfl
  | cons hmoved _ ih => rw [List.map_cons, List.map_cons, hmoved.kind, ih]

/-- Two lists of tokens that are both those of a third one at other places. -/
theorem forall₂_of_common {ts ts' us : List Token} (h : List.Forall₂ Token.Moved ts us)
    (h' : List.Forall₂ Token.Moved ts' us) : List.Forall₂ Token.Moved ts ts' := by
  induction h generalizing ts' with
  | nil =>
    cases h'
    exact .nil
  | cons hmoved _ ih =>
    cases h' with
    | cons hmoved' hmore' => exact .cons (hmoved.trans hmoved'.symm) (ih hmore')

theorem exists_append {ts more us : List Token} (h : List.Forall₂ Token.Moved (ts ++ more) us) :
    ∃ ts' more', us = ts' ++ more' ∧ List.Forall₂ Token.Moved ts ts' ∧
      List.Forall₂ Token.Moved more more' := by
  induction ts generalizing us with
  | nil => exact ⟨[], us, rfl, .nil, h⟩
  | cons t ts ih =>
    cases h with
    | @cons _ u _ _ hmoved hrest =>
      obtain ⟨ts', more', rfl, hts, hmore⟩ := ih hrest
      exact ⟨u :: ts', more', rfl, .cons hmoved hts, hmore⟩

/-- A tag and what it encloses, at another place. -/
theorem exists_enclosed {us before inside after : List Token} {first last : Token}
    (h : List.Forall₂ Token.Moved (before ++ first :: (inside ++ last :: after)) us) :
    ∃ before' first' inside' last' after', us = before' ++ first' :: (inside' ++ last' :: after') ∧
      before'.length = before.length ∧ first.Moved first' ∧
      List.Forall₂ Token.Moved inside inside' ∧ last.Moved last' := by
  obtain ⟨before', rest, rfl, hbefore, hrest⟩ := exists_append h
  cases hrest with
  | cons hfirst hrest =>
    obtain ⟨inside', rest, rfl, hinside, hrest⟩ := exists_append hrest
    cases hrest with
    | cons hlast _ =>
      exact ⟨before', _, inside', _, _, rfl, hbefore.length_eq.symm, hfirst, hinside, hlast⟩

end Token.Moved

namespace Scan

open Text (byteLength byteLength_append)

/-! ## A part of the text -/

/-- **Tokens lie on segments of a text**, from a cursor on. -/
structure Laid (whole : List Char) (start : Cursor) (segments : List (List Char))
    (ts : List Token) : Prop where
  accepted : start.delimiters.Accepted
  placed : ∃ before rest stop, whole = before ++ (segments.flatten ++ rest) ∧
    start.offset = byteLength before ∧ Tiles start segments rest ts stop

namespace Laid

variable {whole : List Char} {start : Cursor} {segments : List (List Char)}
variable {ts before inside after : List Token} {first last : Token}

theorem of_tokensFrom {delimiters : Delimiters} (hd : delimiters.Accepted)
    (h : tokensFrom ⟨0, 0, delimiters⟩ whole = .ok ts) :
    ∃ segments, Laid whole ⟨0, 0, delimiters⟩ segments ts := by
  obtain ⟨stop, hreads⟩ := tokensFrom_eq_ok_iff.1 h
  obtain ⟨segments, hwhole, htiles⟩ := hreads.exists_tiles hd
  exact ⟨segments, hd, [], [], stop, hwhole, rfl, htiles⟩

/-- As many segments as tokens. -/
theorem length_eq (h : Laid whole start segments ts) : segments.length = ts.length := by
  obtain ⟨-, before, rest, stop, -, -, htiles⟩ := h
  exact htiles.length_eq

/-- **What is read does not depend on what stands elsewhere.** -/
theorem unique {whole' : List Char} {start' : Cursor} {segments' : List (List Char)}
    {ts' : List Token} (h : Laid whole start segments ts) (h' : Laid whole' start' segments' ts')
    (hd : start'.delimiters = start.delimiters) (hflat : segments.flatten = segments'.flatten) :
    segments = segments' ∧ List.Forall₂ Token.Moved ts ts' := by
  obtain ⟨haccepted, _, _, _, -, -, htiles⟩ := h
  obtain ⟨haccepted', _, _, _, -, -, htiles'⟩ := h'
  have hanew : (⟨0, 0, start.delimiters⟩ : Cursor).delimiters = start.delimiters := rfl
  obtain ⟨us, stop, hus, hmoved⟩ := htiles.alone haccepted hanew
  obtain ⟨us', stop', hus', hmoved'⟩ := htiles'.alone haccepted' (hanew.trans hd.symm)
  obtain ⟨rfl, rfl⟩ := hus.unique haccepted hus' hflat
  exact ⟨rfl, Token.Moved.forall₂_of_common hmoved hmoved'⟩

/-- **The tokens between two tags** lie on segments between theirs, from the
delimiters that the first tag is written with. -/
theorem exists_between_tags
    (h : Laid whole start segments (before ++ first :: (inside ++ last :: after)))
    (hfirst : first.kind.opens true = true) (hlast : last.kind = .closingTag) :
    ∃ earlier segment between later next, segments = earlier ++ segment :: (between ++ later) ∧
      earlier.length = before.length ∧ segment ≠ [] ∧ Laid whole next between inside ∧
      first.delimiters? = some next.delimiters ∧
      Text.slice? (first.offset?.getD 0) (last.offset?.getD (first.offset?.getD 0)) whole =
        some between.flatten := by
  obtain ⟨haccepted, u, rest, stop, hwhole, hoffset, htiles⟩ := h
  obtain ⟨earlier, segment, between, segment', later, next, mid, rfl, hearlier, hne, hnext,
    haccepted', hdelimiters, hplace, hplace', hbetween, -⟩ :=
    htiles.exists_tags haccepted hfirst hlast
  -- what precedes the part, the part, and what follows it
  have hparts : whole = (u ++ (earlier.flatten ++ segment)) ++
      (between.flatten ++ ((segment' :: later).flatten ++ rest)) := by
    rw [hwhole]
    simp
  have hstart : next.offset = byteLength (u ++ (earlier.flatten ++ segment)) := by
    rw [hnext, hoffset, byteLength_append u]
  refine ⟨earlier, segment, between, segment' :: later, next, rfl, hearlier, hne,
    ⟨haccepted', _, _, mid, hparts, hstart, hbetween⟩, hdelimiters, ?_⟩
  rw [hplace, hplace', Option.getD_some, Option.getD_some, hbetween.offset_eq, hstart, hparts]
  exact Text.slice?_append _ _ _

end Laid

end Scan

/-! ## Sections in the text -/

namespace Tree

open Compile (sectionSource)
open Scan (Cursor Laid)
open Token (Within Moved)

variable {source : String} {blocks inParent : Bool} {t t' u first last : Token}
variable {start start' : Cursor} {segments segments' : List (List Char)}
variable {ts inside inside' nodes : List Token}

/-- **A section has a part of the text to itself**: its tokens lie there on
their segments, from the delimiters at its tag, and its nodes grow out of
them. -/
structure SectionAt (source : String) (blocks : Bool) (t : Token) (start : Cursor)
    (segments : List (List Char)) (inside : List Token) : Prop where
  delimiters : t.delimiters? = some start.delimiters
  slice : Text.slice? (t.offset?.getD 0) (t.stop?.getD (t.offset?.getD 0)) source.toList =
    some segments.flatten
  laid : Laid source.toList start segments inside
  grown : Grown blocks false inside t.nodes

theorem SectionAt.source_eq (h : SectionAt source blocks t start segments inside) :
    sectionSource source t = String.ofList segments.flatten := by
  rw [sectionSource, h.slice]
  rfl

/-- The text of a section is part of the template. -/
theorem SectionAt.length_le (h : SectionAt source blocks t start segments inside) :
    (sectionSource source t).length ≤ source.length := by
  obtain ⟨-, before, rest, -, hwhole, -⟩ := h.laid
  rw [h.source_eq, String.length_ofList, ← String.length_toList, hwhole]
  simp only [List.length_append]
  omega

/-- A section has its place between its two tags. -/
theorem Spanned.exists_sectionAt {before after : List Token}
    (h : Spanned blocks u first inside last)
    (hlaid : Laid source.toList start segments (before ++ first :: (inside ++ last :: after))) :
    ∃ earlier segment between later next, segments = earlier ++ segment :: (between ++ later) ∧
      earlier.length = before.length ∧ segment ≠ [] ∧
      SectionAt source blocks u next between inside := by
  obtain ⟨earlier, segment, between, later, next, hsegments, hlength, hne, hinside, hdelimiters,
    hslice⟩ := hlaid.exists_between_tags (by rw [h.opens]; rfl) h.closes
  refine ⟨earlier, segment, between, later, next, hsegments, hlength, hne, ?_⟩
  refine ⟨h.delimiters.trans hdelimiters, ?_, hinside, h.grown⟩
  rw [h.offset, h.stop]
  exact hslice

/-- **A section inside another has a shorter text.** -/
theorem SectionAt.shorter (h : SectionAt source blocks t start segments inside)
    (hu : Within u t.nodes) (hkind : u.kind = .sectionTag) :
    (sectionSource source u).length < (sectionSource source t).length := by
  obtain ⟨before, first, inside, last, after, rfl, hspanned⟩ := h.grown.exists_spanned hu hkind
  obtain ⟨earlier, segment, between, later, next, rfl, -, hne, hu⟩ :=
    hspanned.exists_sectionAt h.laid
  have hpos : 0 < segment.length := List.length_pos_iff.2 hne
  rw [h.source_eq, hu.source_eq, String.length_ofList, String.length_ofList, List.flatten_append,
    List.flatten_cons, List.flatten_append]
  simp only [List.length_append]
  omega

/-- **Sections of one text have the same sections inside**, wherever they
stand, if they are written with the same delimiters. -/
theorem SectionAt.exists_same (h : SectionAt source blocks t start segments inside)
    (h' : SectionAt source blocks t' start' segments' inside')
    (hdelimiters : t.delimiters? = t'.delimiters?)
    (hsource : sectionSource source t = sectionSource source t')
    (hu : Within u t.nodes) (hkind : u.kind = .sectionTag) :
    ∃ u', Within u' t'.nodes ∧ u'.kind = .sectionTag ∧ u'.delimiters? = u.delimiters? ∧
      sectionSource source u' = sectionSource source u := by
  have hstart : start'.delimiters = start.delimiters := by
    rw [h.delimiters, h'.delimiters] at hdelimiters
    exact (Option.some.inj hdelimiters).symm
  have hflat : segments.flatten = segments'.flatten := by
    rw [h.source_eq, h'.source_eq] at hsource
    simpa using congrArg String.toList hsource
  obtain ⟨rfl, hmoved⟩ := h.laid.unique h'.laid hstart hflat
  -- the section inside, its tags at the other place, and the section that they open there
  obtain ⟨before, first, within, last, after, rfl, hspanned⟩ := h.grown.exists_spanned hu hkind
  obtain ⟨before', first', within', last', after', rfl, hbefore, hfirst, hwithin, hlast⟩ :=
    Moved.exists_enclosed hmoved
  obtain ⟨u', within'', last'', rest, hu', htokens, hspanned'⟩ :=
    h'.grown.exists_section rfl (hfirst.kind.trans hspanned.opens)
  have hsame : within' = within'' := by
    have hbalanced := hspanned.grown.balanced
    rw [← Moved.map_kind hwithin] at hbalanced
    have hkinds := congrArg (List.map (·.kind)) htokens
    rw [List.map_append, List.map_append, List.map_cons, List.map_cons,
      hlast.kind.trans hspanned.closes, hspanned'.closes] at hkinds
    have hmatch := hbalanced.matching hspanned'.grown.balanced hkinds
    have hlength := congrArg List.length hmatch
    rw [List.length_map, List.length_map] at hlength
    exact (List.append_inj htokens hlength).1
  subst hsame
  obtain ⟨rfl, rfl⟩ := List.cons.inj (List.append_cancel_left htokens)
  obtain ⟨earlier, segment, between, later, next, hsegments, hearlier, -, hplace⟩ :=
    hspanned.exists_sectionAt h.laid
  obtain ⟨earlier', segment', between', later', next', hsegments', hearlier', -, hplace'⟩ :=
    hspanned'.exists_sectionAt h'.laid
  have hbetween : between = between' := by
    have hlength : earlier.length = earlier'.length := by rw [hearlier, hearlier', hbefore]
    have hmore := (List.append_inj (hsegments.symm.trans hsegments') hlength).2
    have hlength' : between.length = between'.length := by
      rw [hplace.laid.length_eq, hplace'.laid.length_eq, hwithin.length_eq]
    exact (List.append_inj (List.cons.inj hmore).2 hlength').1
  refine ⟨u', hu', hspanned'.kind, ?_, ?_⟩
  · rw [hspanned'.delimiters, hspanned.delimiters, hfirst.delimiters?]
  · rw [hplace.source_eq, hplace'.source_eq, hbetween]

/-- **Every section of a tree has a part of the text to itself**, wherever it
stands. -/
theorem exists_sectionAt {delimiters : Delimiters} (hd : delimiters.Accepted)
    {pragmas : List Pragma} {tree : Tree} (hscan : Token.scan delimiters source = .ok ts)
    (htree : ofTokens pragmas ts = .ok tree) (ht : Within t tree.nodes)
    (hkind : t.kind = .sectionTag) :
    ∃ start segments inside,
      SectionAt source (tree.pragmas.has .blocks) t start segments inside := by
  obtain ⟨raw, hraw, rfl⟩ := Scan.exists_of_scan hscan
  have hfresh : ∀ t ∈ raw, t.Fresh := Scan.forall_tokensFrom (I := fun _ => True)
    (fun _ _ _ hread _ => ⟨Scan.readToken_fresh hread, trivial⟩) hraw trivial
  obtain ⟨leaves, others, hnodes, hleaves, hgrown⟩ := exists_grown_raw htree hfresh
  obtain ⟨segments, hlaid⟩ := Laid.of_tokensFrom hd hraw
  -- pragmas come first and enclose nothing
  have hothers : Within t others := by
    rw [hnodes, Within.append_iff] at ht
    refine ht.resolve_left fun hleaf => ?_
    cases hleaf with
    | here hmem =>
      rw [(hleaves t hmem).1] at hkind
      cases hkind
    | @inside v _ hmem hinside =>
      rw [Token.nodes, (hleaves v hmem).2] at hinside
      exact Within.not_nil hinside
  obtain ⟨before, first, inside, last, after, rfl, hspanned⟩ := hgrown.exists_spanned hothers hkind
  obtain ⟨-, -, between, -, next, -, -, -, hplace⟩ := hspanned.exists_sectionAt hlaid
  exact ⟨next, between, inside, hplace⟩

end Tree

end Mustache
