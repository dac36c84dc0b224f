import Mustache.Proofs.Caching
import Mustache.Proofs.Compiles
import Mustache.Proofs.Flat
import Mustache.Proofs.Nesting
import Mustache.Proofs.Segments
import Mustache.Proofs.SharedWalk
import Mustache.Proofs.Standalone
/-!
# Mustache — templates made of blocks

Inheritance is between templates of two kinds: a row of blocks around texts,
and a parent tag around a row of overrides. Written on one line, neither has
white space that a tag takes with it (`clear_eq_self`), so the nodes are the
tags one by one. The code of a row of blocks is a block for each
(`exists_compiled_row`); that of a parent tag is one instruction, and each
override is on file under its key, shared or not
(`exists_compiled_extension`).
-/

namespace Mustache

/-- The pragmas that a template starts with are in effect. -/
theorem PragmaSet.has_ofPragmas {pragmas : List Pragma} {p : Pragma} :
    (ofPragmas pragmas).has p = true ↔ p ∈ pragmas := by
  have hname (q : Pragma) : p.name = q.name ↔ p = q := by
    refine ⟨fun h => ?_, congrArg Pragma.name⟩
    have hfound := congrArg Pragma.ofName? h
    rw [Pragma.ofName?_name, Pragma.ofName?_name] at hfound
    exact Option.some.inj hfound
  have hall (set : PragmaSet) : (pragmas.foldl (fun set q => set.enable q.name) set).has p = true ↔
      set.has p = true ∨ p ∈ pragmas := by
    induction pragmas generalizing set with
    | nil => simp
    | cons q pragmas ih =>
      rw [List.foldl_cons, ih, has_enable, hname, List.mem_cons]
      tauto
  exact (hall ⟨[]⟩).trans (or_iff_right nofun)

/-! ## Tags and their names -/

namespace Scan

/-- A tag in standard delimiters, as it is written. -/
def tagChars (sigil : Char) (inside : List Char) : List Char :=
  ['\x7b', '\x7b'] ++ sigil :: (inside ++ ['\x7d', '\x7d'])

/-- A tag ends behind this text, and not before. -/
def Inside (inside : List Char) : Prop :=
  Text.cutAt? ['\x7d', '\x7d'] (inside ++ ['\x7d', '\x7d']) = some (inside, [])

instance (inside : List Char) : Decidable (Inside inside) :=
  inferInstanceAs (Decidable (_ = _))

/-- The token of a tag on the first line. -/
def tagAt (kind : TokenKind) (inside : List Char) (offset : Nat) : Token :=
  tagToken ⟨0, 0, .standard⟩ kind (Text.trim inside) offset

end Scan

open Scan (tagAt tagChars Inside)

/-- The name of a tag as the pragmas in effect have it. There is none if the
context is to give it, or the tag admits no such name. -/
def Tree.nameOf? (set : PragmaSet) (kind : TokenKind) (inside : List Char) : Option String :=
  match readName set (tagAt kind inside 0) with
  | .ok t => if t.dynamic then none else some t.name
  | .error _ => none

/-- A tag and its closing tag: the name they have, and what stands inside of
them behind the sigil. -/
structure TagPair where
  name : String
  opening : List Char
  closing : List Char

/-- Both tags have the name. -/
structure TagPair.Fits (set : PragmaSet) (kind : TokenKind) (p : TagPair) : Prop where
  opening : Inside p.opening
  closing : Inside p.closing
  opens : Tree.nameOf? set kind p.opening = some p.name
  closes : Tree.nameOf? set .closingTag p.closing = some p.name

instance (set : PragmaSet) (kind : TokenKind) (p : TagPair) : Decidable (p.Fits set kind) :=
  decidable_of_iff (Inside p.opening ∧ Inside p.closing ∧
      Tree.nameOf? set kind p.opening = some p.name ∧
      Tree.nameOf? set .closingTag p.closing = some p.name)
    ⟨fun ⟨h₁, h₂, h₃, h₄⟩ => ⟨h₁, h₂, h₃, h₄⟩, fun h => ⟨h.opening, h.closing, h.opens, h.closes⟩⟩

/-- A block around a text. -/
structure Block extends TagPair where
  text : String

/-- A parent tag around overrides. Its name is that of the template it
extends. -/
structure Extension extends TagPair where
  overrides : List Block

/-- A text without braces and newlines. -/
def IsBare (text : String) : Prop :=
  ∀ c ∈ text.toList, c ≠ '\x7b' ∧ c ≠ '\x7d' ∧ c ≠ '\n'

instance (text : String) : Decidable (IsBare text) := List.decidableBAll _ text.toList

namespace Block

/-- The tags have the name of the block, and the text is bare. -/
structure Fits (set : PragmaSet) (b : Block) : Prop where
  tags : b.toTagPair.Fits set .blockVar
  text : IsBare b.text

instance (set : PragmaSet) (b : Block) : Decidable (b.Fits set) :=
  decidable_of_iff (b.toTagPair.Fits set .blockVar ∧ IsBare b.text)
    ⟨fun ⟨h₁, h₂⟩ => ⟨h₁, h₂⟩, fun h => ⟨h.tags, h.text⟩⟩

/-- The block as it is written. -/
def written (b : Block) : List Char :=
  tagChars '$' b.opening ++ (b.text.toList ++ tagChars '/' b.closing)

/-- The template that is a row of blocks. -/
def source (bs : List Block) : String := String.ofList (bs.flatMap written)

/-- The token of the text, if there is a text. -/
def inner (b : Block) : List Token := if b.text = "" then [] else [.ofText b.text 0]

/-- The tokens of the block. -/
def tokens (b : Block) (start stop : Nat) : List Token :=
  tagAt .blockVar b.opening start :: (b.inner ++ [tagAt .closingTag b.closing stop])

/-- The tokens of a row of blocks. -/
inductive Row : List Block → List Token → Prop
  | nil : Row [] []
  | cons {bs : List Block} {ts : List Token} (b : Block) (start stop : Nat) :
      Row bs ts → Row (b :: bs) (b.tokens start stop ++ ts)

end Block

namespace Extension

/-- The tags have the name of the parent, and the overrides fit. -/
structure Fits (set : PragmaSet) (x : Extension) : Prop where
  tags : x.toTagPair.Fits set .parentTag
  overrides : ∀ b ∈ x.overrides, b.Fits set

instance (set : PragmaSet) (x : Extension) : Decidable (x.Fits set) :=
  decidable_of_iff (x.toTagPair.Fits set .parentTag ∧ ∀ b ∈ x.overrides, b.Fits set)
    ⟨fun ⟨h₁, h₂⟩ => ⟨h₁, h₂⟩, fun h => ⟨h.tags, h.overrides⟩⟩

/-- The template that is this tag. -/
def source (x : Extension) : String :=
  String.ofList (tagChars '<' x.opening ++
    (x.overrides.flatMap Block.written ++ tagChars '/' x.closing))

end Extension

/-! ## Scanning -/

namespace Scan

/-- A tag with a name is read. -/
theorem exists_reads_tag {sigil : Char} {kind : TokenKind} {inside : List Char}
    (hsigil : TokenKind.ofSigil? sigil = some kind)
    (hkind : kind ∉ [.delimiterTag, .pragma, .tripleBrace]) (hinside : Inside inside)
    (offset : Nat) (cs : List Char) :
    ∃ place stop, Reads ⟨offset, 0, .standard⟩ (tagChars sigil inside ++ cs)
      [tagAt kind inside place] ⟨stop, 0, .standard⟩ cs := by
  simp only [List.mem_cons, List.not_mem_nil, or_false, not_or] at hkind
  obtain ⟨hdelimiter, hpragma, htriple⟩ := hkind
  have hopening : Cursor.opening ⟨offset, 0, .standard⟩ = ['\x7b', '\x7b'] := opening_standard rfl
  have hwritten : tagChars sigil inside ++ cs = Cursor.opening ⟨offset, 0, .standard⟩ ++
      sigil :: (inside ++ (['\x7d', '\x7d'] ++ cs)) := by
    rw [hopening]
    simp [tagChars]
  have htag (r : List Char) : readTag ⟨offset, 0, .standard⟩ (sigil :: r) =
      readNamed ⟨offset, 0, .standard⟩ kind (offset + 2 + sigil.utf8Size) r := by
    unfold readTag
    dsimp only
    rw [hsigil, hopening]
    cases kind <;> first | rfl | contradiction
  have hstart : Cursor.delimiters ⟨offset, 0, .standard⟩ = .standard := rfl
  obtain ⟨⟨token, ⟨stop, line, delimiters⟩, rest⟩, hnamed, hdelimiters, hline, hrest, place,
    htoken⟩ := readNamed_braces hstart kind htriple (offset + 2 + sigil.utf8Size)
      (Text.cutAt?_again hinside cs)
  obtain rfl : delimiters = .standard := hdelimiters
  obtain rfl : line = 0 := hline
  obtain rfl : rest = cs := hrest
  obtain rfl : token = tagAt kind inside place := htoken
  have hread : readToken ⟨offset, 0, .standard⟩ (tagChars sigil inside ++ rest) =
      .ok ⟨tagAt kind inside place, ⟨stop, 0, .standard⟩, rest⟩ := by
    rw [hwritten, readToken_opening (by rw [hopening]; exact List.cons_ne_nil _ _), htag, hnamed]
  exact ⟨place, stop, .cons (List.cons_ne_nil _ _) hread (.nil _ _)⟩

/-- A bare text in front of a tag is read as one piece. -/
theorem exists_reads_bare {text : String} (hbare : IsBare text) (hne : text ≠ "") (offset : Nat)
    {cs : List Char} (hcs : ['\x7b', '\x7b'] <+: cs) :
    ∃ stop, Reads ⟨offset, 0, .standard⟩ (text.toList ++ cs) [.ofText text 0]
      ⟨stop, 0, .standard⟩ cs := by
  have hchars : text.toList ≠ [] := fun hnil => hne (String.toList_eq_nil_iff.1 hnil)
  have hclosed : Unopened ['\x7b', '\x7b'] text.toList cs := by
    intro v hv hsuffix
    obtain ⟨c, v, rfl⟩ := List.exists_cons_of_ne_nil hv
    have hc := (hbare c (hsuffix.subset List.mem_cons_self)).1
    simp [opened?, Text.after?, Ne.symm hc]
  have hsegment : TextSegment ['\x7b', '\x7b'] text.toList cs := by
    refine ⟨hclosed, fun hmem => (hbare '\n' (List.dropLast_subset _ hmem)).2.2 rfl, .inr (.inr ?_)⟩
    obtain ⟨rest, rfl⟩ := hcs
    rfl
  have hlast : text.toList.getLast? ≠ some '\n' := fun hlast =>
    (hbare '\n' (List.mem_of_getLast? hlast)).2.2 rfl
  have hread : readToken ⟨offset, 0, .standard⟩ (text.toList ++ cs) =
      .ok ⟨.ofText text 0, ⟨offset + Text.byteLength text.toList, 0, .standard⟩, cs⟩ := by
    have hopening : Cursor.opening ⟨offset, 0, .standard⟩ = ['\x7b', '\x7b'] :=
      opening_standard rfl
    rw [readToken, hopening, hclosed _ hchars List.suffix_rfl]
    dsimp only
    rw [readText, hopening, hsegment.chunk_eq]
    dsimp only
    rw [if_neg hlast, String.ofList_toList]
  exact ⟨_, .cons (List.append_ne_nil_of_left_ne_nil hchars cs) hread (.nil _ _)⟩

/-- A block is read. -/
theorem exists_reads_block {set : PragmaSet} {b : Block} (hb : b.Fits set) (offset : Nat)
    (cs : List Char) :
    ∃ start stop last, Reads ⟨offset, 0, .standard⟩ (b.written ++ cs) (b.tokens start stop)
      ⟨last, 0, .standard⟩ cs := by
  have hwritten : b.written ++ cs =
      tagChars '$' b.opening ++ (b.text.toList ++ (tagChars '/' b.closing ++ cs)) := by
    simp [Block.written]
  obtain ⟨start, mid, hopens⟩ := exists_reads_tag (rfl : TokenKind.ofSigil? '$' = _) (by decide)
    hb.tags.opening offset (b.text.toList ++ (tagChars '/' b.closing ++ cs))
  obtain ⟨mid', hinner⟩ : ∃ mid', Reads ⟨mid, 0, .standard⟩
      (b.text.toList ++ (tagChars '/' b.closing ++ cs)) b.inner ⟨mid', 0, .standard⟩
      (tagChars '/' b.closing ++ cs) := by
    unfold Block.inner
    by_cases hempty : b.text = ""
    · rw [if_pos hempty, hempty]
      exact ⟨mid, .nil _ _⟩
    · rw [if_neg hempty]
      exact exists_reads_bare hb.text hempty mid ⟨_, by rw [tagChars, List.append_assoc]⟩
  obtain ⟨stop, last, hcloses⟩ := exists_reads_tag (rfl : TokenKind.ofSigil? '/' = _) (by decide)
    hb.tags.closing mid' cs
  refine ⟨start, stop, last, ?_⟩
  rw [hwritten]
  exact hopens.append (hinner.append hcloses)

/-- A row of blocks is read block by block. -/
theorem exists_reads_row {set : PragmaSet} {bs : List Block} (hbs : ∀ b ∈ bs, b.Fits set)
    (offset : Nat) (cs : List Char) :
    ∃ ts stop, Block.Row bs ts ∧
      Reads ⟨offset, 0, .standard⟩ (bs.flatMap Block.written ++ cs) ts ⟨stop, 0, .standard⟩ cs := by
  induction bs generalizing offset with
  | nil => exact ⟨[], offset, .nil, .nil _ _⟩
  | cons b bs ih =>
    obtain ⟨hb, hbs⟩ := List.forall_mem_cons.1 hbs
    obtain ⟨start, stop, mid, hblock⟩ :=
      exists_reads_block hb offset (bs.flatMap Block.written ++ cs)
    obtain ⟨ts, last, hrow, hmore⟩ := ih hbs mid
    refine ⟨_, last, hrow.cons b start stop, ?_⟩
    rw [List.flatMap_cons, List.append_assoc]
    exact hblock.append hmore

end Scan

/-- A row of blocks has no pragmas. -/
theorem Block.Row.plain {bs : List Block} {ts : List Token} (h : Row bs ts) :
    ∀ t ∈ ts, t.kind ≠ .pragma := by
  induction h with
  | nil => exact nofun
  | @cons bs ts b start stop _ ih =>
    have hinner : ∀ t ∈ b.inner, t.kind ≠ .pragma := by
      unfold inner
      split
      · exact nofun
      · exact List.forall_mem_singleton.2 nofun
    refine List.forall_mem_append.2 ⟨List.forall_mem_cons.2 ⟨nofun, ?_⟩, ih⟩
    exact List.forall_mem_append.2 ⟨hinner, List.forall_mem_singleton.2 nofun⟩

/-- **A row of blocks is scanned.** -/
theorem Scan.exists_scan_row {set : PragmaSet} {bs : List Block} (hbs : ∀ b ∈ bs, b.Fits set) :
    ∃ ts, Block.Row bs ts ∧ Token.scan .standard (Block.source bs) = .ok ts := by
  obtain ⟨ts, stop, hrow, hreads⟩ := exists_reads_row hbs 0 []
  rw [List.append_nil, ← String.toList_ofList (l := bs.flatMap Block.written)] at hreads
  exact ⟨ts, hrow, hreads.scan_eq hrow.plain⟩

/-- **A parent tag around overrides is scanned.** -/
theorem Scan.exists_scan_extension {set : PragmaSet} {x : Extension} (hx : x.Fits set) :
    ∃ ts start stop, Block.Row x.overrides ts ∧ Token.scan .standard x.source =
      .ok (tagAt .parentTag x.opening start :: (ts ++ [tagAt .closingTag x.closing stop])) := by
  obtain ⟨start, mid, hopens⟩ := exists_reads_tag (rfl : TokenKind.ofSigil? '<' = _) (by decide)
    hx.tags.opening 0 (x.overrides.flatMap Block.written ++ (tagChars '/' x.closing ++ []))
  obtain ⟨ts, mid', hrow, hreads⟩ :=
    exists_reads_row hx.overrides mid (tagChars '/' x.closing ++ [])
  obtain ⟨stop, last, hcloses⟩ := exists_reads_tag (rfl : TokenKind.ofSigil? '/' = _) (by decide)
    hx.tags.closing mid' []
  have hplain : ∀ t ∈ ts ++ [tagAt .closingTag x.closing stop], t.kind ≠ .pragma :=
    List.forall_mem_append.2 ⟨hrow.plain, List.forall_mem_singleton.2 nofun⟩
  have hwhole : Reads ⟨0, 0, .standard⟩ x.source.toList
      (tagAt .parentTag x.opening start :: (ts ++ [tagAt .closingTag x.closing stop]))
      ⟨last, 0, .standard⟩ [] := by
    rw [Extension.source, String.toList_ofList, ← List.append_nil (tagChars '/' x.closing)]
    exact hopens.append (hreads.append hcloses)
  exact ⟨ts, start, stop, hrow, hwhole.scan_eq (List.forall_mem_cons.2 ⟨nofun, hplain⟩)⟩

/-! ## Parsing -/

/-- A node for a block: an override directly inside a parent tag, and a block
elsewhere. -/
structure Block.Node (kind : TokenKind) (b : Block) (t : Token) : Prop where
  kind : t.kind = kind
  name : t.name = b.name
  nodes : t.nodes = b.inner

namespace Tree

/-- A name that a tag has of itself is read wherever the tag stands. -/
theorem exists_readName {set : PragmaSet} {kind : TokenKind} {inside : List Char} {name : String}
    (h : nameOf? set kind inside = some name) (offset : Nat) :
    ∃ t, readName set (tagAt kind inside offset) = .ok t ∧ t.kind = kind ∧ t.name = name ∧
      t.dynamic = false ∧ t.offset? = some offset := by
  unfold nameOf? at h
  split at h
  · next u hread =>
    split at h
    · cases h
    · next hdynamic =>
      obtain rfl := Option.some.inj h
      have hmoved : (tagAt kind inside 0).Moved (tagAt kind inside offset) := rfl
      obtain ⟨t, hread', hmoved'⟩ := readName_moved (fun _ _ => rfl) hmoved hread
      have hsame := sameButName_readName hread'
      refine ⟨t, hread', hsame.kind, hmoved'.name, ?_, ?_⟩
      · rw [hmoved'.dynamic]
        exact Bool.eq_false_iff.2 hdynamic
      · rw [hsame.eq]
        rfl
  · cases h

/-- **Nothing goes with a tag** that something else than white space at the end
of the line follows; nor with the last one, if it is not the second token of
its line. -/
theorem clear_eq_self {s : State} {rest : List Token}
    (h : follow? s.line? rest = none ∨ rest = [] ∧ (s.siblings = [] ∨ 2 ≤ s.position)) :
    clear s rest = ⟨s, false, none⟩ := by
  rw [clear_eq_clearOn]
  rcases h with hfollow | ⟨rfl, hlast⟩
  · rw [hfollow]
    rfl
  · obtain ⟨line?, position, pragmas, siblings, opened⟩ := s
    change clearOn _ (some false) = _
    unfold clearOn
    match position, siblings, hlast with
    | 0, _, _ | 1, [], _ | _ + 2, _, _ => rfl
    | 1, _ :: _, .inl h => cases h
    | 1, _ :: _, .inr h => exact absurd h (Nat.not_succ_le_self 1)

theorem follow?_tag {t : Token} (hline : t.line = 0) (hkind : t.kind ≠ .text) (rest : List Token) :
    follow? (some 0) (t :: rest) = none := by
  have hblank : t.isBlank = false := by simp [Token.isBlank, hkind]
  rw [follow?, hline, hblank]
  rfl

/-- What stands in a block, and after it its closing tag. -/
theorem follow?_inner {set : PragmaSet} {b : Block} (hb : b.Fits set) (stop : Nat)
    (rest : List Token) :
    follow? (some 0) (b.inner ++ tagAt .closingTag b.closing stop :: rest) = none := by
  unfold Block.inner
  split
  · exact follow?_tag rfl TokenKind.noConfusion rest
  · have hends : (Token.ofText b.text 0).endsLine = false := by
      refine decide_eq_false fun hlast => ?_
      exact (hb.text '\n' (List.mem_of_getLast? hlast)).2.2 rfl
    rw [List.singleton_append, follow?, hends]
    simp [Token.ofText, Token.bare]

theorem build_of_step {s s' : State} {t : Token} {rest : List Token}
    (h : step s t rest = .ok (s', false)) : build s (t :: rest) = build s' rest := by
  rw [build, h]
  rfl

/-- A closing tag closes the tag of its name. -/
theorem step_closing {p : TagPair} {kind : TokenKind} {s : State} (hp : p.Fits s.pragmas kind)
    {tag : Token} {before : List Token} {opened : List OpenTag}
    (hopened : s.opened = ⟨tag, before⟩ :: opened) (hname : tag.name = p.name)
    (hdynamic : tag.dynamic = false) {rest : List Token}
    (hrest : follow? (some 0) rest = none ∨
      rest = [] ∧ (s.siblings = [] ∨ s.line? = some 0 ∧ 0 < s.position)) (stop : Nat) :
    step s (tagAt .closingTag p.closing stop) rest =
      .ok ({ s.countLine 0 with
        siblings := { tag with stop? := some stop, nodes? := some s.siblings.reverse } :: before,
        opened := opened }, false) := by
  obtain ⟨t, hread, hkind, htname, htdynamic, hoffset⟩ := exists_readName hp.closes stop
  have hclear : clear (s.countLine 0) rest = ⟨s.countLine 0, false, none⟩ := by
    refine clear_eq_self ?_
    rw [countLine_line, countLine_siblings]
    refine hrest.imp_right fun ⟨hnil, hlast⟩ => ⟨hnil, hlast.imp_right fun ⟨hline, hposition⟩ => ?_⟩
    rw [State.countLine, if_pos hline]
    exact Nat.succ_le_succ hposition
  unfold step
  change readName (s.countLine 0).pragmas (tagAt .closingTag p.closing stop) >>=
    (fun t => place (s.countLine 0) t rest) = _
  rw [countLine_pragmas, hread]
  have hplacing : Placing (s.countLine 0) t rest _ _ :=
    .close hkind ((countLine_opened s 0).trans hopened) (htname.trans hname.symm)
      (htdynamic.trans hdynamic.symm)
  rw [hclear, hoffset, countLine_siblings] at hplacing
  exact hplacing.place_eq

/-- What a block is where it stands. -/
def State.blockKind (s : State) : TokenKind :=
  if s.enclosing?.any fun p => p.kind = .parentTag then .blockArg else .blockVar

section Rows

variable {s : State} (hblocks : s.pragmas.has .blocks = true)

include hblocks

/-- The opening tag of a block opens it. -/
theorem exists_step_block {p : TagPair} (hp : p.Fits s.pragmas .blockVar) {rest : List Token}
    (hrest : follow? (some 0) rest = none) (start : Nat) :
    ∃ tag, step s (tagAt .blockVar p.opening start) rest =
        .ok ((s.countLine 0).enter tag, false) ∧
      tag.kind = s.blockKind ∧ tag.name = p.name ∧ tag.dynamic = false := by
  obtain ⟨t, hread, hkind, hname, hdynamic, -⟩ := exists_readName hp.opens start
  have hclear : clear (s.countLine 0) rest = ⟨s.countLine 0, false, none⟩ :=
    clear_eq_self (.inl (by rw [countLine_line, hrest]))
  have hplaced : step s (tagAt .blockVar p.opening start) rest =
      place (s.countLine 0) t rest := by
    unfold step
    change readName (s.countLine 0).pragmas (tagAt .blockVar p.opening start) >>= _ = _
    rw [countLine_pragmas, hread]
    rfl
  have henclosing : (s.countLine 0).enclosing? = s.enclosing? := by
    rw [State.enclosing?, countLine_opened]
    rfl
  have hplacing : Placing (s.countLine 0) t rest _ _ :=
    .enterBlock hkind (by rw [countLine_pragmas]; exact hblocks)
  rw [hclear, henclosing] at hplacing
  refine ⟨_, hplaced.trans hplacing.place_eq, ?_⟩
  unfold State.blockKind
  split
  · exact ⟨rfl, hname, hdynamic⟩
  · exact ⟨hkind, hname, hdynamic⟩

/-- A block becomes a node. -/
theorem exists_build_block {b : Block} (hb : b.Fits s.pragmas) {rest : List Token}
    (hrest : follow? (some 0) rest = none ∨ rest = []) (start stop : Nat) :
    ∃ node s', build s (b.tokens start stop ++ rest) = build s' rest ∧
      b.Node s.blockKind node ∧ s'.siblings = node :: s.siblings ∧ s'.opened = s.opened ∧
      s'.pragmas = s.pragmas ∧ s'.line? = some 0 ∧ 0 < s'.position := by
  have hwhole : b.tokens start stop ++ rest = tagAt .blockVar b.opening start ::
      (b.inner ++ tagAt .closingTag b.closing stop :: rest) := by
    simp [Block.tokens]
  obtain ⟨tag, hopens, hkind, hname, hdynamic⟩ := exists_step_block hblocks hb.tags
    (follow?_inner hb stop rest) start
  -- what is inside comes to the siblings, and puts the closing tag further on
  obtain ⟨s₁, hinner, hsiblings, hopened, hpragmas, hline, hlast⟩ : ∃ s₁,
      build ((s.countLine 0).enter tag) (b.inner ++ tagAt .closingTag b.closing stop :: rest) =
        build s₁ (tagAt .closingTag b.closing stop :: rest) ∧
      s₁.siblings.reverse = b.inner ∧ s₁.opened = ⟨tag, s.siblings⟩ :: s.opened ∧
      s₁.pragmas = s.pragmas ∧ s₁.line? = some 0 ∧ (s₁.siblings = [] ∨ 0 < s₁.position) := by
    have hopened : ((s.countLine 0).enter tag).opened = ⟨tag, s.siblings⟩ :: s.opened := by
      rw [State.enter, countLine_siblings, countLine_opened]
    unfold Block.inner
    split
    · exact ⟨_, rfl, rfl, hopened, countLine_pragmas s 0, countLine_line s 0, .inl rfl⟩
    · have hadded : IsAdded s.pragmas (.ofText b.text 0) := isAdded_piece ⟨b.text, 0, rfl⟩
      have hpiece := hadded ((s.countLine 0).enter tag) (tagAt .closingTag b.closing stop :: rest)
        (countLine_pragmas s 0)
      refine ⟨_, build_of_step hpiece, ?_, ?_, ?_, countLine_line _ 0, .inr ?_⟩
      · exact congrArg (fun l => (Token.ofText b.text 0 :: l).reverse) (countLine_siblings _ 0)
      · exact (countLine_opened _ 0).trans hopened
      · exact (countLine_pragmas _ 0).trans (countLine_pragmas s 0)
      · have hline : ((s.countLine 0).enter tag).line? = some 0 := countLine_line s 0
        change 0 < (((s.countLine 0).enter tag).countLine 0).position
        rw [State.countLine, if_pos hline]
        exact Nat.succ_pos _
  have hfits : b.toTagPair.Fits s₁.pragmas .blockVar := hpragmas.symm ▸ hb.tags
  have hcloses := step_closing hfits hopened hname hdynamic
    (hrest.imp_right fun hnil => ⟨hnil, hlast.imp_right fun hpos => ⟨hline, hpos⟩⟩) stop
  let node := { tag with stop? := some stop, nodes? := some s₁.siblings.reverse }
  let after := { s₁.countLine 0 with siblings := node :: s.siblings, opened := s.opened }
  refine ⟨node, after, ?_, ⟨hkind, hname, hsiblings⟩, rfl, rfl, ?_, ?_, ?_⟩
  · rw [hwhole, build_of_step hopens, hinner, build_of_step hcloses]
  · exact (countLine_pragmas s₁ 0).trans hpragmas
  · exact countLine_line s₁ 0
  · change 0 < (s₁.countLine 0).position
    rw [State.countLine, if_pos hline]
    exact Nat.succ_pos _

/-- **A row of blocks becomes a row of nodes.** -/
theorem exists_build_row {bs : List Block} {ts : List Token} (hrow : Block.Row bs ts)
    (hbs : ∀ b ∈ bs, b.Fits s.pragmas) {rest : List Token}
    (hrest : follow? (some 0) rest = none ∨ rest = []) :
    ∃ nodes s', build s (ts ++ rest) = build s' rest ∧
      List.Forall₂ (Block.Node s.blockKind) bs nodes ∧
      s'.siblings = nodes.reverse ++ s.siblings ∧ s'.opened = s.opened ∧
      s'.pragmas = s.pragmas ∧ (s' = s ∨ s'.line? = some 0 ∧ 0 < s'.position) := by
  induction hrow generalizing s with
  | nil => exact ⟨[], s, rfl, .nil, rfl, rfl, rfl, .inl rfl⟩
  | @cons bs ts b start stop hrow ih =>
    obtain ⟨hb, hbs⟩ := List.forall_mem_cons.1 hbs
    have hnext : follow? (some 0) (ts ++ rest) = none ∨ ts ++ rest = [] := by
      cases hrow with
      | nil => exact hrest
      | cons => exact .inl (follow?_tag rfl TokenKind.noConfusion _)
    obtain ⟨node, s₁, hbuild, hnode, hsiblings, hopened, hpragmas, hline, hposition⟩ :=
      exists_build_block hblocks hb hnext start stop
    rw [← hpragmas] at hblocks hbs
    obtain ⟨nodes, s', hbuild', hnodes, hsiblings', hopened', hpragmas', hlast⟩ := ih hblocks hbs
    have hkind : s₁.blockKind = s.blockKind := by
      rw [State.blockKind, State.blockKind, State.enclosing?, State.enclosing?, hopened]
    refine ⟨node :: nodes, s', ?_, .cons hnode (hkind ▸ hnodes), ?_, hopened'.trans hopened,
      hpragmas'.trans hpragmas, .inr ?_⟩
    · rw [List.append_assoc, hbuild, hbuild']
    · rw [hsiblings', hsiblings, List.reverse_cons, List.append_assoc]
      rfl
    · exact hlast.elim (fun heq => heq ▸ ⟨hline, hposition⟩) id

end Rows

section Trees

variable {pragmas : List Pragma} (hblocks : .blocks ∈ pragmas)

include hblocks

/-- **The tree of a row of blocks.** -/
theorem exists_ofTokens_row {bs : List Block} {ts : List Token} (hrow : Block.Row bs ts)
    (hbs : ∀ b ∈ bs, b.Fits (.ofPragmas pragmas)) :
    ∃ tree, ofTokens pragmas ts = .ok tree ∧ List.Forall₂ (Block.Node .blockVar) bs tree.nodes := by
  obtain ⟨nodes, s, hbuild, hnodes, hsiblings, hopened, -, -⟩ :=
    exists_build_row (s := ⟨none, 0, .ofPragmas pragmas, [], []⟩)
      (PragmaSet.has_ofPragmas.2 hblocks) hrow hbs (.inr rfl)
  rw [List.append_nil, build.eq_1 s] at hbuild
  refine ⟨_, ofTokens_eq_ok_iff.2 ⟨s, hbuild, hopened, rfl⟩, ?_⟩
  rw [hsiblings, List.append_nil, List.reverse_reverse]
  exact hnodes

/-- **The tree of a parent tag**: one node, with the overrides in it. -/
theorem exists_ofTokens_extension {x : Extension} {ts : List Token}
    (hrow : Block.Row x.overrides ts) (hx : x.Fits (.ofPragmas pragmas)) (start stop : Nat) :
    ∃ tree node, ofTokens pragmas (tagAt .parentTag x.opening start ::
        (ts ++ [tagAt .closingTag x.closing stop])) = .ok tree ∧ tree.nodes = [node] ∧
      node.kind = .parentTag ∧ node.name = x.name ∧ node.dynamic = false ∧
      List.Forall₂ (Block.Node .blockArg) x.overrides node.nodes := by
  let s : State := ⟨none, 0, .ofPragmas pragmas, [], []⟩
  obtain ⟨tag, hread, hkind, hname, hdynamic, -⟩ := exists_readName hx.tags.opens start
  have hopens (rest : List Token) : step s (tagAt .parentTag x.opening start) rest =
      .ok ((s.countLine 0).enter tag, false) := by
    unfold step
    change readName (.ofPragmas pragmas) (tagAt .parentTag x.opening start) >>=
      (fun t => place (s.countLine 0) t rest) = _
    rw [hread]
    exact Placing.place_eq (.enterParent hkind rfl)
  have hclosing : follow? (some 0) [tagAt .closingTag x.closing stop] = none :=
    follow?_tag rfl TokenKind.noConfusion []
  obtain ⟨nodes, s₁, hbuild, hnodes, hsiblings, hopened, hpragmas, hlast⟩ :=
    exists_build_row (s := (s.countLine 0).enter tag) (PragmaSet.has_ofPragmas.2 hblocks) hrow
      hx.overrides (.inl hclosing)
  -- the blocks stand directly inside the parent tag, where they are overrides
  have hblockKind : ((s.countLine 0).enter tag).blockKind = .blockArg := by
    change (if decide (tag.kind = .parentTag) then TokenKind.blockArg else .blockVar) = _
    rw [hkind]
    rfl
  rw [hblockKind] at hnodes
  have hsiblings : s₁.siblings = nodes.reverse := hsiblings.trans (List.append_nil _)
  have hfits : x.toTagPair.Fits s₁.pragmas .parentTag := hpragmas.symm ▸ hx.tags
  have hlast : s₁.siblings = [] ∨ s₁.line? = some 0 ∧ 0 < s₁.position :=
    hlast.imp_left fun heq => congrArg State.siblings heq
  have hcloses := step_closing hfits hopened hname hdynamic (.inr ⟨rfl, hlast⟩) stop
  rw [hsiblings, List.reverse_reverse] at hcloses
  let node := { tag with stop? := some stop, nodes? := some nodes }
  refine ⟨⟨[node], s₁.pragmas⟩, node, ofTokens_eq_ok_iff.2
    ⟨{ s₁.countLine 0 with siblings := [node], opened := [] }, ?_, rfl, ?_⟩, rfl, hkind, hname,
    hdynamic, hnodes⟩
  · rw [build_of_step (hopens _), hbuild, build_of_step hcloses, build]
    rfl
  · rw [countLine_pragmas]
    rfl

end Trees

end Tree

/-! ## Compiling -/

/-- Code that writes a text. -/
inductive Instr.Writes : String → List Instr → Prop
  | nothing : Writes "" []
  | text (value : String) (starts : Bool) : Writes value [.text value starts]

/-- The texts of the code that the overrides of a parent tag may have. -/
def Extension.overrideTexts (x : Extension) : Set String :=
  {text | ∃ b ∈ x.overrides, ∃ body, Instr.Writes b.text body ∧ text = Instr.bodyText body}

namespace Extension

/-- The same texts, listed. -/
def listedTexts (x : Extension) : List String :=
  Instr.bodyText [] :: x.overrides.flatMap fun b =>
    [Instr.bodyText [.text b.text true], Instr.bodyText [.text b.text false]]

/-- Whether the digests of these texts collide can be found out. -/
theorem injOn_overrideTexts {x : Extension} {digest : String → String}
    (h : (x.listedTexts.dedup.map digest).Nodup) : Set.InjOn digest x.overrideTexts := by
  have hlisted {text : String} (htext : text ∈ x.overrideTexts) :
      text ∈ x.listedTexts.dedup := by
    obtain ⟨b, hb, body, hwrites, rfl⟩ := htext
    refine List.mem_dedup.2 ?_
    generalize hvalue : b.text = value at hwrites
    cases hwrites with
    | nothing => exact List.mem_cons_self
    | text _ starts =>
      subst hvalue
      refine List.mem_cons_of_mem _ (List.mem_flatMap.2 ⟨b, hb, ?_⟩)
      cases starts
      · exact List.mem_cons_of_mem _ List.mem_cons_self
      · exact List.mem_cons_self
  exact fun a ha b hb heq => List.inj_on_of_nodup_map h (hlisted ha) (hlisted hb) heq

end Extension

namespace Block

/-- The code of a block. -/
def Code (b : Block) (i : Instr) : Prop :=
  ∃ body, i = .block b.name body ∧ Instr.Writes b.text body

/-- An override of a parent tag: its name, and the key that its code is filed
under. -/
def FiledIn (blocks : Entries (List Instr)) (b : Block) (o : String × String) : Prop :=
  o.1 = b.name ∧ ∃ body, Entries.get? blocks o.2 = some body ∧ Instr.Writes b.text body

end Block

namespace Compile

variable {digest : String → String} {source : String} {s s' : State}

theorem walked_inner {b : Block} {body : List Instr} (h : Walked digest source s b.inner body s') :
    Instr.Writes b.text body ∧ s'.blocks = s.blocks := by
  unfold Block.inner at h
  split at h
  · next hempty =>
    cases h
    rw [hempty]
    exact ⟨.nothing, rfl⟩
  · cases h with
    | leaf hcode hrest =>
      cases hcode
      cases hrest
      exact ⟨.text b.text _, rfl⟩
    | _ => contradiction

/-- **The code of a row of blocks** is a block for each. -/
theorem walked_row {bs : List Block} {nodes : List Token} {code : List Instr}
    (hnodes : List.Forall₂ (Block.Node .blockVar) bs nodes)
    (h : Walked digest source s nodes code s') : List.Forall₂ Block.Code bs code := by
  induction hnodes generalizing s code with
  | nil =>
    cases h
    exact .nil
  | @cons b node bs nodes hnode _ ih =>
    obtain ⟨body, s₁, rest, hbody, hrest, rfl⟩ := h.of_block hnode.kind
    rw [hnode.nodes] at hbody
    exact .cons ⟨body, by rw [hnode.name], (walked_inner hbody).1⟩ (ih hrest)

/-- **The overrides of a parent tag are all on file**, under the digests of their
code, if these do not collide. -/
theorem walked_overrides {texts : Set String} (hfree : Set.InjOn digest texts) {bs : List Block}
    {nodes : List Token} {os : List (String × String)}
    (hnodes : List.Forall₂ (Block.Node .blockArg) bs nodes)
    (hown : ∀ b ∈ bs, ∀ body, Instr.Writes b.text body → Instr.bodyText body ∈ texts)
    (h : WalkedOverrides digest source s nodes os s') (hs : BlocksKeyed digest s.blocks)
    (hfiled : blockTexts s.blocks ⊆ texts) :
    (∀ key body, Entries.get? s.blocks key = some body → Entries.get? s'.blocks key = some body) ∧
      List.Forall₂ (Block.FiledIn s'.blocks) bs os := by
  induction hnodes generalizing s os with
  | nil =>
    cases h
    exact ⟨fun _ _ hget => hget, .nil⟩
  | @cons b node bs nodes hnode _ ih =>
    obtain ⟨hb, hbs⟩ := List.forall_mem_cons.1 hown
    cases h with
    | skip hother _ => exact absurd hnode.kind hother
    | @override _ s₁ _ _ _ body os _ hbody hrest =>
      rw [hnode.nodes] at hbody
      obtain ⟨hwrites, hblocks⟩ := walked_inner hbody
      rw [← hblocks] at hs hfiled
      have hmore : insert (Instr.bodyText body) (blockTexts s₁.blocks) ⊆ texts :=
        Set.insert_subset (hb body hwrites) hfiled
      obtain ⟨hkept, hrow⟩ := ih hbs hrest hs.withBlock (blockTexts_withBlock.trans hmore)
      refine ⟨fun key found hget => hkept _ _ (get?_withBlock_of_get? (hblocks ▸ hget)), ?_⟩
      have hfound := hs.get?_withBlock (hfree.mono hmore)
      exact .cons ⟨hnode.name, body, hkept _ _ hfound, hwrites⟩ hrow

end Compile

namespace Engine

variable {e : Engine} (hblocks : .blocks ∈ e.pragmas)
variable (hstart : e.startingDelimiters none = .standard)

include hblocks hstart

/-- **A row of blocks compiles** to a block for each. -/
theorem exists_compiled_row {bs : List Block} (hbs : ∀ b ∈ bs, b.Fits (.ofPragmas e.pragmas)) :
    ∃ p, e.compiled (Block.source bs) none = .ok p ∧ List.Forall₂ Block.Code bs p.body := by
  obtain ⟨ts, hrow, hscan⟩ := Scan.exists_scan_row hbs
  obtain ⟨tree, htree, hnodes⟩ := Tree.exists_ofTokens_row hblocks hrow hbs
  rw [← hstart] at hscan
  obtain ⟨p, hp⟩ := Program.exists_compile hscan htree e.digest e.compileSettings
  refine ⟨p, (compile_of_parsed hscan htree _).trans hp, ?_⟩
  obtain ⟨body, s, hwalked, rfl⟩ := Program.exists_walked hp
  exact Compile.walked_row hnodes hwalked

/-- **A parent tag compiles** to one instruction, with each override on file if
the digests of their code do not collide. -/
theorem exists_compiled_extension {x : Extension} (hx : x.Fits (.ofPragmas e.pragmas)) :
    ∃ p os, e.compiled x.source none = .ok p ∧ p.body = [.extend (.fixed x.name) os] ∧
      (Set.InjOn e.digest x.overrideTexts →
        List.Forall₂ (Block.FiledIn p.blocks) x.overrides os) := by
  obtain ⟨ts, start, stop, hrow, hscan⟩ := Scan.exists_scan_extension hx
  obtain ⟨tree, node, htree, hnode, hkind, hname, hdynamic, hnodes⟩ :=
    Tree.exists_ofTokens_extension hblocks hrow hx start stop
  rw [← hstart] at hscan
  obtain ⟨p, hp⟩ := Program.exists_compile hscan htree e.digest e.compileSettings
  have hcompiled := (compile_of_parsed hscan htree _).trans hp
  obtain ⟨body, s, hwalked, rfl⟩ := Program.exists_walked hp
  rw [hnode] at hwalked
  obtain ⟨os, s₁, rest, hos, hrest, rfl⟩ := hwalked.of_parent hkind
  cases hrest
  refine ⟨_, os, hcompiled, ?_, fun hfree => ?_⟩
  · rw [Compile.templateNameOf, hdynamic, hname]
    rfl
  · have hown : ∀ b ∈ x.overrides, ∀ body, Instr.Writes b.text body →
        Instr.bodyText body ∈ x.overrideTexts := fun b hb body hwrites => ⟨b, hb, body, hwrites, rfl⟩
    exact (Compile.walked_overrides hfree hnodes hown hos nofun nofun).2

end Engine

end Mustache
