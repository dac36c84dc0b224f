import Mustache.Proofs.Pipes
/-!
# Mustache — other filters in a tag

The filters of a tag say nothing about which tags match. Where a template
parses, it parses as well with other filters in one of its tags, or with none,
and whether the tag opens a section or closes one (`Tree.exists_refiltered`).

The tokens in front of the tag stay as they are, since they end where a tag
begins (`Scan.Tiles.before_tag`), and those behind it move. The tag is read to
the same name, so that the check of the parser goes on alike
(`Tree.exists_ofTokens_of_alike`).
-/

namespace Mustache

/-! ## The text in front of a tag -/

namespace Scan

section Front

variable {start next stop : Cursor} {segment rest rest' after : List Char}
variable {segments : List (List Char)} {t : Token} {ts : List Token}

/-- A piece of text ends where a tag begins, whichever it is. -/
theorem TextSegment.of_opened {opening piece : List Char} (h : TextSegment opening piece rest)
    (hopened : (opened? opening rest).isSome = true)
    (hopened' : (opened? opening rest').isSome = true) : TextSegment opening piece rest' := by
  obtain ⟨inside, hinside⟩ := Option.isSome_iff_exists.1 hopened
  obtain ⟨inside', hinside'⟩ := Option.isSome_iff_exists.1 hopened'
  obtain ⟨-, rfl⟩ := opened?_eq_some hinside
  obtain ⟨-, rfl⟩ := opened?_eq_some hinside'
  have hclosed : Unopened opening piece (opening ++ [] ++ inside) := by
    rw [List.append_nil]
    exact h.closed
  have hclosed' := hclosed.of_tag inside'
  rw [List.append_nil] at hclosed'
  exact ⟨hclosed', h.newline, .inr (.inr hopened')⟩

/-- Only what a piece of text reads depends on what follows it. -/
theorem Tile.followed (h : Tile start segment rest t next)
    (hrest : TextSegment start.opening segment rest → TextSegment start.opening segment rest') :
    Tile start segment rest' t next := by
  cases h with
  | text hne hpiece => exact .text hne (hrest hpiece)
  | named hsegment hsigil hkind hfirst => exact .named hsegment hsigil hkind hfirst
  | triple hclosing hsegment hsigil hfirst => exact .triple hclosing hsegment hsigil hfirst
  | tripleInside hclosing hsegment hsigil hfirst hname =>
    exact .tripleInside hclosing hsegment hsigil hfirst hname
  | delimiters hsegment hsigil hfirst hspec => exact .delimiters hsegment hsigil hfirst hspec
  | pragma hsegment hsigil hfirst => exact .pragma hsegment hsigil hfirst

/-- **What stands in front of a tag** is read alike, whichever tag it is. -/
theorem Tiles.before_tag (h : Tiles start segments (stop.opening ++ after) ts stop)
    (hstart : start.delimiters.Accepted) (after' : List Char) :
    Tiles start segments (stop.opening ++ after') ts stop := by
  generalize hrest : stop.opening ++ after = rest at h
  induction h with
  | nil => exact .nil _ _
  | @cons start next stop segment rest segments t ts htile hmore ih =>
    subst hrest
    have hnext := htile.accepted hstart
    refine .cons (htile.followed fun hpiece => ?_) (ih hnext rfl)
    by_cases hlast : segment.getLast? = some '\n'
    · exact ⟨hpiece.closed.of_newline hstart hlast _, hpiece.newline, .inl hlast⟩
    -- no newline ends the piece, so that a tag follows it, which has a tile or is the last one
    have hne : segments.flatten ++ (stop.opening ++ after) ≠ [] :=
      List.append_ne_nil_of_right_ne_nil _
        (List.append_ne_nil_of_left_ne_nil (hmore.accepted hnext).ne_nil.1 _)
    have hopened := (hpiece.ends.resolve_left hlast).resolve_left hne
    have hsame : next.opening = start.opening :=
      htile.opening_eq hstart.ne_nil.1
        (hpiece.closed segment (htile.ne_nil hstart.ne_nil.1) List.suffix_rfl)
    refine hpiece.of_opened hopened ?_
    rw [← hsame] at hopened ⊢
    cases hmore with
    | nil =>
      rw [List.flatten_nil, List.nil_append, opened?,
        if_neg (by rw [List.isEmpty_iff]; exact hnext.ne_nil.1), Text.after?_append]
      rfl
    | cons hfirst _ =>
      rw [List.flatten_cons, List.append_assoc] at hopened ⊢
      exact hfirst.opened hnext.ne_nil.1 hopened _

end Front

/-- **Another tag in the place of one** is scanned where that one is. The tokens in
front of it stay, and those behind it move. -/
theorem exists_scan_instead {delimiters : Delimiters} (hd : delimiters.Accepted) {source : String}
    {ts before : List Token} {c next next' : Cursor} {inside inside' back : List Char}
    {t u : Token} (hscan : Token.scan delimiters source = .ok ts)
    (hreads : Reads ⟨0, 0, delimiters⟩ source.toList before c (c.opening ++ inside ++ back))
    (htile : c.delimiters.Accepted → ∀ rest, Tile c (c.opening ++ inside) rest t next)
    (htile' : c.delimiters.Accepted → ∀ rest, Tile c (c.opening ++ inside') rest u next')
    (hnext : next'.delimiters = next.delimiters) :
    c.delimiters.Accepted ∧ ∃ after after' source', ts = hoistPragmas (before ++ t :: after) ∧
      List.Forall₂ Token.Moved after after' ∧
      Reads ⟨0, 0, delimiters⟩ source'.toList before c (c.opening ++ inside' ++ back) ∧
      Token.scan delimiters source' = .ok (hoistPragmas (before ++ u :: after')) := by
  obtain ⟨hc, after, earlier, later, stop, rfl, -, hearlier, rfl, hlater⟩ :=
    exists_around hd hscan hreads htile
  have hthis := htile hc later.flatten
  have hthis' := htile' hc later.flatten
  rw [List.append_assoc] at hearlier
  have hearlier' := hearlier.before_tag hd (inside' ++ later.flatten)
  rw [← List.append_assoc] at hearlier'
  obtain ⟨after', stop', hlater', hmoved⟩ := hlater.alone (hthis.accepted hc) hnext
  let source' := String.ofList (earlier.flatten ++ (c.opening ++ inside' ++ later.flatten))
  have hreads' : Reads ⟨0, 0, delimiters⟩ source'.toList before c
      (c.opening ++ inside' ++ later.flatten) := by
    rw [String.toList_ofList]
    exact hearlier'.reads hd
  have hrest := hlater'.reads (hthis'.accepted hc)
  rw [List.append_nil] at hrest
  have hwhole : tokensFrom ⟨0, 0, delimiters⟩ source'.toList = .ok (before ++ u :: after') :=
    tokensFrom_eq_ok_iff.2 ⟨stop', hreads'.append (.cons
      (List.append_ne_nil_of_left_ne_nil (hthis'.ne_nil hc.ne_nil.1) _)
      (hthis'.readToken_eq hc.ne_nil.1) hrest)⟩
  refine ⟨hc, after, after', source', rfl, hmoved, hreads', ?_⟩
  rw [Token.scan, hwhole]
  rfl

end Scan

namespace Tree

open Scan (Cursor pipeKinds Reads Tiles)
open Token (Moved)

/-! ## The check of the parser -/

/-- What moves is read alike, pragmas apart. -/
theorem Nesting.readAlike_filter {set set' : PragmaSet} {ts us : List Token}
    (halike : set.ParsesAlike set') (h : List.Forall₂ Moved ts us) :
    List.Forall₂ (ReadAlike set set') (ts.filter fun t => t.kind ≠ .pragma)
      (us.filter fun t => t.kind ≠ .pragma) :=
  (Scan.moved_filter h fun kind => kind ≠ .pragma).imp fun _ _ => readAlike_of_moved halike

/-- **A template parses if one does whose tokens are read alike.** Its pragmas are
the same ones at other places. -/
theorem exists_ofTokens_of_alike {pragmas : List Pragma} {raw raw' : List Token} {tree : Tree}
    (hfresh : ∀ t ∈ Scan.hoistPragmas raw, t.Fresh)
    (hfresh' : ∀ t ∈ Scan.hoistPragmas raw', t.Fresh)
    (htree : ofTokens pragmas (Scan.hoistPragmas raw) = .ok tree)
    (hpragmas : List.Forall₂ Moved (raw.filter fun t => t.kind = .pragma)
      (raw'.filter fun t => t.kind = .pragma))
    (hread : ∀ set, tree.pragmas.ParsesAlike set → List.Forall₂
      (Nesting.ReadAlike tree.pragmas set) (raw.filter fun t => t.kind ≠ .pragma)
      (raw'.filter fun t => t.kind ≠ .pragma)) :
    ∃ tree', ofTokens pragmas (Scan.hoistPragmas raw') = .ok tree' ∧
      tree.pragmas.ParsesAlike tree'.pragmas := by
  have hplain (ts : List Token) : ∀ t ∈ ts.filter fun t => t.kind ≠ .pragma, t.kind ≠ .pragma :=
    fun t ht => of_decide_eq_true (List.mem_filter.1 ht).2
  have htaken := (exists_ofTokens_iff hfresh).1 ⟨tree, htree, rfl⟩
  rw [Scan.hoistPragmas, Nesting.takeAll_append] at htaken
  obtain ⟨n, hfirst, hmore⟩ := exists_of_bind_eq_ok htaken
  have hsame : (⟨.ofPragmas pragmas, []⟩ : Nesting).Alike ⟨.ofPragmas pragmas, []⟩ :=
    ⟨fun _ _ => rfl, .nil⟩
  obtain ⟨n', hfirst', halike⟩ := Nesting.takeAll_moved hsame (List.rel_reverse hpragmas) hfirst
  have hset : tree.pragmas = n.pragmas := Nesting.takeAll_of_plain (hplain raw) hmore
  obtain ⟨⟨set, tags⟩, hmore', hset', htags⟩ := Nesting.takeAll_alike halike (hplain raw)
    (hplain raw') (hset ▸ hread n'.pragmas (hset ▸ halike.pragmas)) hmore
  cases htags
  have htaken' : (⟨.ofPragmas pragmas, []⟩ : Nesting).takeAll (Scan.hoistPragmas raw') =
      .ok ⟨set, []⟩ := by
    rw [Scan.hoistPragmas, Nesting.takeAll_append, hfirst']
    exact hmore'
  obtain ⟨tree', htree', rfl⟩ := (exists_ofTokens_iff hfresh').2 htaken'
  exact ⟨tree', htree', hset'⟩

/-! ## The tag with other filters -/

variable {c : Cursor} {kind : TokenKind} {x : String} {fs gs : List String}

/-- The name of a pipe is read to the same, whatever the filters. -/
theorem readAlike_pipeToken {set set' : PragmaSet} {c' : Cursor}
    (hset : set.has .filters = true) (hset' : set'.has .filters = true)
    (hkind : kind ∈ pipeKinds) (hfs : PipeFits c.delimiters x fs)
    (hgs : PipeFits c'.delimiters x gs) :
    Nesting.ReadAlike set set' (c.pipeToken kind x fs) (c'.pipeToken kind x gs) := by
  obtain ⟨hstar, hread⟩ := reading_pipeToken (c := c) hset hkind hfs
  obtain ⟨hstar', hread'⟩ := reading_pipeToken (c := c') hset' hkind hgs
  intro t' ht'
  rw [readName_eq_reading, if_neg hstar, hread] at ht'
  cases ht'
  refine ⟨_, by rw [readName_eq_reading, if_neg hstar', hread'], ?_⟩
  exact ⟨rfl, rfl, rfl⟩

/-- **A template parses with other filters in one of its tags**, or with none. -/
theorem exists_refiltered {delimiters : Delimiters} (hd : delimiters.Accepted) {source : String}
    {pragmas : List Pragma} {ts before : List Token} {tree : Tree} {back : List Char}
    (hscan : Token.scan delimiters source = .ok ts) (htree : ofTokens pragmas ts = .ok tree)
    (hset : tree.pragmas.has .filters = true) (hkind : kind ∈ pipeKinds)
    (hfs : PipeFits c.delimiters x fs) (hgs : PipeFits c.delimiters x gs)
    (hreads : Reads ⟨0, 0, delimiters⟩ source.toList before c (c.pipeTag kind x fs ++ back)) :
    ∃ source' ts' tree',
      Reads ⟨0, 0, delimiters⟩ source'.toList before c (c.pipeTag kind x gs ++ back) ∧
      Token.scan delimiters source' = .ok ts' ∧ ofTokens pragmas ts' = .ok tree' ∧
      tree'.pragmas.has .filters = true := by
  obtain ⟨-, after, after', source', rfl, hmoved, hreads', hscan'⟩ :=
    Scan.exists_scan_instead hd hscan hreads (Scan.tile_pipeTag hkind hfs)
      (Scan.tile_pipeTag hkind hgs) rfl
  let t := c.pipeToken kind x fs
  let u := c.pipeToken kind x gs
  have hplain : kind ≠ .pragma := by
    rintro rfl
    exact absurd hkind (by decide)
  have hfront : List.Forall₂ Moved before before := List.forall₂_same.2 fun t _ => .refl t
  -- the two lists differ in one token, which is no pragma and is read as the same tag
  have hpragmas : List.Forall₂ Moved ((before ++ t :: after).filter fun t => t.kind = .pragma)
      ((before ++ u :: after').filter fun t => t.kind = .pragma) := by
    rw [List.filter_append, List.filter_append, List.filter_cons_of_neg (by simp [t, hplain]),
      List.filter_cons_of_neg (by simp [u, hplain]), ← List.filter_append, ← List.filter_append]
    exact Scan.moved_filter (List.rel_append hfront hmoved) fun kind => kind = .pragma
  have hread (set : PragmaSet) (halike : tree.pragmas.ParsesAlike set) :
      List.Forall₂ (Nesting.ReadAlike tree.pragmas set)
        ((before ++ t :: after).filter fun t => t.kind ≠ .pragma)
        ((before ++ u :: after').filter fun t => t.kind ≠ .pragma) := by
    have hset' : set.has .filters = true := (halike .filters (by decide)).symm.trans hset
    rw [List.filter_append, List.filter_append, List.filter_cons_of_pos (by simp [t, hplain]),
      List.filter_cons_of_pos (by simp [u, hplain])]
    exact List.rel_append (Nesting.readAlike_filter halike hfront)
      (.cons (readAlike_pipeToken hset hset' hkind hfs hgs)
        (Nesting.readAlike_filter halike hmoved))
  obtain ⟨tree', htree', halike⟩ := exists_ofTokens_of_alike (Scan.fresh_scan hscan)
    (Scan.fresh_scan hscan') htree hpragmas hread
  exact ⟨source', _, tree', hreads', hscan', htree',
    (halike .filters (by decide)).symm.trans hset⟩

end Tree

end Mustache
