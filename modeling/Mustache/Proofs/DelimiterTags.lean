import Mustache.Proofs.Pipes
/-!
# Mustache — delimiters set by a tag

Delimiters can be set from outside, for the whole of a text, or by a tag in
front of the text (`Delimiters.tag`). The scanner reads on behind the tag as it
reads the text alone, only with greater offsets: a scan does not depend on where
it begins (`tokensFrom_shifted`). So the two agree on every text if the tag sets
the delimiters that it is made of, and it does so unless it ends too early, at a
`=` and two braces inside one of them (`setsAlike_iff`).
-/

namespace Mustache

open Text (byteLength byteLength_append FirstAfter)

/-- A token further on in a text. -/
def Token.shifted (bytes : Nat) (t : Token) : Token :=
  { t with offset? := t.offset?.map (bytes + ·) }

/-- An error further on in a text. -/
def Error.shifted (bytes : Nat) : Error → Error
  | .malformed fault t => .malformed fault (t.shifted bytes)
  | e => e

/-- No message tells an offset. -/
theorem Error.message_shifted (bytes : Nat) (e : Error) :
    (e.shifted bytes).message = e.message := by
  cases e with
  | malformed fault t => cases fault <;> rfl
  | unknownTemplate | unknownFilter | unknownHelper | invalidArgument | runtime => rfl

/-! ## A scan further on -/

namespace Scan

/-- A place further on in a text. -/
def Cursor.shifted (bytes : Nat) (c : Cursor) : Cursor := { c with offset := bytes + c.offset }

/-- A token that is read further on. -/
def Step.shifted (bytes : Nat) (step : Step) : Step :=
  ⟨step.token.shifted bytes, step.next.shifted bytes, step.rest⟩

/-- What is read further on: a result or an error. -/
def shiftedBy {α : Type} (shift : Nat → α → α) (bytes : Nat) (read : Except Error α) :
    Except Error α :=
  (read.map (shift bytes)).mapError (Error.shifted bytes)

section Shifting

variable (bytes : Nat) (start : Cursor) (kind : TokenKind) (offset : Nat) (cs : List Char)

theorem readText_shifted :
    readText (start.shifted bytes) cs = (readText start cs).shifted bytes := by
  unfold readText Step.shifted Cursor.shifted
  dsimp only [Cursor.opening]
  rw [Nat.add_assoc]
  rfl

theorem readNamed_shifted :
    readNamed (start.shifted bytes) kind (bytes + offset) cs =
      shiftedBy Step.shifted bytes (readNamed start kind offset cs) := by
  have hclosing : (start.shifted bytes).closing = start.closing := rfl
  have hdelimiters : (start.shifted bytes).delimiters = start.delimiters := rfl
  unfold readNamed
  rw [hclosing, hdelimiters]
  cases Text.cutAt? start.closing cs with
  | none => rfl
  | some cut =>
    obtain ⟨inside, rest⟩ := cut
    have hstop : bytes + offset + byteLength inside + byteLength start.closing =
        bytes + (offset + byteLength inside + byteLength start.closing) := by omega
    dsimp only
    rw [hstop]
    have htoken (name : List Char) :
        tagToken (start.shifted bytes) kind name (if kind = .closingTag then
            (start.shifted bytes).offset
          else bytes + (offset + byteLength inside + byteLength start.closing)) =
          (tagToken start kind name (if kind = .closingTag then start.offset
            else offset + byteLength inside + byteLength start.closing)).shifted bytes := by
      split <;> rfl
    rw [htoken, htoken]
    by_cases htriple : kind = .tripleBrace
    · rw [if_pos htriple, if_pos htriple]
      by_cases hbraces : start.delimiters.closing = Delimiters.standard.closing
      · rw [if_pos hbraces, if_pos hbraces]
        split <;> rfl
      · rw [if_neg hbraces, if_neg hbraces]
        split <;> rfl
    · rw [if_neg htriple, if_neg htriple]
      rfl

theorem readDelimiters_shifted :
    readDelimiters (start.shifted bytes) (bytes + offset) cs =
      shiftedBy Step.shifted bytes (readDelimiters start offset cs) := by
  have hclosing : (start.shifted bytes).closing = start.closing := rfl
  unfold readDelimiters
  rw [hclosing]
  cases Text.cutAt? ('=' :: start.closing) cs with
  | none => rfl
  | some cut =>
    dsimp only
    split
    · rfl
    · rw [Nat.add_assoc bytes, Nat.add_assoc bytes]
      rfl

theorem readPragma_shifted :
    readPragma (start.shifted bytes) (bytes + offset) cs =
      shiftedBy Step.shifted bytes (readPragma start offset cs) := by
  have hclosing : (start.shifted bytes).closing = start.closing := rfl
  unfold readPragma
  rw [hclosing]
  cases Text.cutAt? start.closing cs with
  | none => rfl
  | some cut =>
    dsimp only
    rw [Nat.add_assoc bytes, Nat.add_assoc bytes]
    rfl

theorem readTag_shifted :
    readTag (start.shifted bytes) cs = shiftedBy Step.shifted bytes (readTag start cs) := by
  have hoffset : (start.shifted bytes).offset + byteLength (start.shifted bytes).opening =
      bytes + (start.offset + byteLength start.opening) := Nat.add_assoc _ _ _
  unfold readTag
  rw [hoffset]
  cases cs with
  | nil => exact readNamed_shifted bytes start _ _ _
  | cons c r =>
    dsimp only
    rw [Nat.add_assoc bytes]
    cases TokenKind.ofSigil? c with
    | none => exact readNamed_shifted bytes start _ _ _
    | some kind =>
      cases kind with
      | delimiterTag => exact readDelimiters_shifted bytes start _ _
      | pragma => exact readPragma_shifted bytes start _ _
      | _ => exact readNamed_shifted bytes start _ _ _

/-- **One token** is read alike further on. -/
theorem readToken_shifted :
    readToken (start.shifted bytes) cs = shiftedBy Step.shifted bytes (readToken start cs) := by
  have hopening : (start.shifted bytes).opening = start.opening := rfl
  unfold readToken
  rw [hopening]
  cases opened? start.opening cs with
  | some inside => exact readTag_shifted bytes start inside
  | none => exact congrArg Except.ok (readText_shifted bytes start cs)

/-- **A scan does not depend on where it begins**, but for the offsets. -/
theorem tokensFrom_shifted :
    tokensFrom (start.shifted bytes) cs =
      shiftedBy (fun bytes => List.map (Token.shifted bytes)) bytes (tokensFrom start cs) := by
  induction start, cs using tokensFrom.induct with
  | case1 start =>
    rw [tokensFrom, tokensFrom]
    rfl
  | case2 start c r step hread ih =>
    have hne := List.cons_ne_nil c r
    rw [tokensFrom_cons _ _ hne, tokensFrom_cons _ _ hne, readToken_shifted, hread]
    change (tokensFrom (step.next.shifted bytes) step.rest).map _ =
      shiftedBy _ bytes ((tokensFrom step.next step.rest).map (step.token :: ·))
    rw [ih]
    cases tokensFrom step.next step.rest <;> rfl
  | case3 start c r e hread =>
    have hne := List.cons_ne_nil c r
    rw [tokensFrom_cons _ _ hne, tokensFrom_cons _ _ hne, readToken_shifted, hread]
    rfl

end Shifting

end Scan

/-! ## The tag -/

namespace Text

variable {pattern before cs u v : List Char} {c : Char}

/-- A pattern without blanks stands before a blank or after it. -/
theorem infix_or_of_blank (hc : isBlank c = true) (hpattern : ∀ d ∈ pattern, isBlank d = false)
    (h : before ++ c :: cs = u ++ (pattern ++ v)) :
    pattern <:+: before ∨ ∃ u', cs = u' ++ (pattern ++ v) := by
  have hnot : c ∉ pattern := by
    intro hmem
    rw [hpattern c hmem] at hc
    cases hc
  rw [← List.append_assoc] at h
  rcases List.append_eq_append_iff.1 h with ⟨w, hw, hrest⟩ | ⟨w, hw, -⟩
  · cases w with
    | nil => exact .inl ⟨u, [], by rw [List.append_nil, hw, List.append_nil]⟩
    | cons d w =>
      obtain ⟨rfl, hcs⟩ := List.cons.inj hrest
      -- the pattern begins behind the blank, as the blank is none of it
      rcases List.append_eq_append_iff.1 hw with ⟨x, -, hx⟩ | ⟨x, -, hx⟩
      · exact absurd (by rw [hx]; simp) hnot
      · cases x with
        | nil => exact absurd (by rw [← List.nil_append pattern, ← hx]; simp) hnot
        | cons d x =>
          have hw : w = x ++ pattern := (List.cons.inj hx).2
          exact .inr ⟨x, by rw [← List.append_assoc, ← hw]; exact hcs⟩
  · exact .inl ⟨u, w, hw.symm⟩

/-- A text that begins and ends with other characters than blanks is trimmed. -/
theorem trim_eq_self (hfirst : ∀ d ∈ cs.head?, isBlank d = false)
    (hlast : ∀ d ∈ cs.getLast?, isBlank d = false) : trim cs = cs := by
  have hstart : trimStart cs = cs := by
    cases cs with
    | nil => rfl
    | cons d cs => exact List.dropWhile_cons_of_neg (by rw [hfirst d rfl]; exact Bool.false_ne_true)
  rw [trim, hstart]
  rcases List.eq_nil_or_concat cs with rfl | ⟨front, d, rfl⟩
  · rfl
  · rw [List.concat_eq_append] at hlast ⊢
    refine trimEnd_concat_of_not_blank ?_ front
    rw [hlast d (by rw [List.getLast?_concat]; rfl)]
    exact Bool.false_ne_true

end Text

namespace Delimiters

variable {d : Delimiters}

theorem toList_text (d : Delimiters) :
    d.text.toList = d.opening.toList ++ ' ' :: d.closing.toList := by
  simp [text]

theorem toList_tag (d : Delimiters) :
    d.tag.toList = standard.opening.toList ++
      (['='] ++ ((' ' :: (d.text.toList ++ [' '])) ++ '=' :: standard.closing.toList)) := by
  simp [tag, text]

/-- The text of delimiters names them. -/
theorem ofText?_text (hd : d.Accepted) : ofText? d.text = some d := by
  have hopening : ∀ c ∈ d.opening.toList, ¬ Text.isBlank c = true := fun c hc =>
    Bool.eq_false_iff.1 (hd.isBlank_eq_false (.inl hc))
  have hclosing : ∀ c ∈ d.closing.toList, ¬ Text.isBlank c = true := fun c hc =>
    Bool.eq_false_iff.1 (hd.isBlank_eq_false (.inr hc))
  have hwords : Text.words d.text.toList = [d.opening.toList, d.closing.toList] := by
    rw [toList_text, Text.words, Text.splitWhere_append hopening (by decide),
      Text.splitWhere_eq_singleton hclosing]
    simp [hd.ne_nil]
  rw [ofText?, hwords]
  simp

/-- The text of delimiters is trimmed. -/
theorem trim_text (hd : d.Accepted) : Text.trim d.text.toList = d.text.toList := by
  obtain ⟨o, os, ho⟩ := List.exists_cons_of_ne_nil hd.ne_nil.1
  rw [toList_text]
  refine Text.trim_eq_self (fun c hc => hd.isBlank_eq_false (.inl ?_))
    fun c hc => hd.isBlank_eq_false (.inr ?_)
  · rw [ho, List.cons_append, List.head?_cons] at hc
    cases hc
    rw [ho]
    exact List.mem_cons_self
  · rw [List.getLast?_append_of_ne_nil _ (List.cons_ne_nil _ _),
      List.getLast?_cons_of_ne_nil hd.ne_nil.2] at hc
    exact List.mem_of_getLast? hc

/-- What ends a set-delimiter tag between standard delimiters. -/
def endOfTag : List Char := '=' :: standard.closing.toList

/-- **The tag is cut short**: what ends it stands in one of the delimiters that it
sets. -/
def CutShort (d : Delimiters) : Prop :=
  endOfTag <:+: d.opening.toList ∨ endOfTag <:+: d.closing.toList

instance (d : Delimiters) : Decidable d.CutShort := inferInstanceAs (Decidable (_ ∨ _))

/-- A tag ends where it is to end unless it is cut short. -/
theorem firstAfter_iff :
    FirstAfter endOfTag (' ' :: (d.text.toList ++ [' '])) ↔ ¬ d.CutShort := by
  have hblank : Text.isBlank ' ' = true := by decide
  have hplain : ∀ c ∈ endOfTag, Text.isBlank c = false := by
    intro c hc
    rcases List.mem_cons.1 hc with rfl | hc
    · decide
    · exact accepted_standard.isBlank_eq_false (.inr hc)
  have hwhole : ' ' :: (d.text.toList ++ [' ']) ++ endOfTag =
      ' ' :: (d.opening.toList ++ ' ' :: (d.closing.toList ++ ' ' :: endOfTag)) := by
    simp [toList_text]
  rw [FirstAfter, hwhole]
  constructor
  · rintro hfirst (⟨u, v, hopening⟩ | ⟨u, v, hclosing⟩)
    · rw [← hopening] at hfirst
      have hlate := hfirst (' ' :: u) (v ++ ' ' :: (d.closing.toList ++ ' ' :: endOfTag)) (by simp)
      simp at hlate
    · rw [← hclosing] at hfirst
      have hlate := hfirst (' ' :: (d.opening.toList ++ ' ' :: u)) (v ++ ' ' :: endOfTag) (by simp)
      simp at hlate
  · intro hfree u v heq
    rw [← List.nil_append (' ' :: (d.opening.toList ++ _))] at heq
    obtain hnil | ⟨u, heq⟩ := Text.infix_or_of_blank hblank hplain heq
    · exact absurd (List.infix_nil.1 hnil) (List.cons_ne_nil _ _)
    · obtain hopening | ⟨u, heq⟩ := Text.infix_or_of_blank hblank hplain heq
      · exact absurd (.inl hopening) hfree
      · obtain hclosing | ⟨u, heq⟩ := Text.infix_or_of_blank hblank hplain heq
        · exact absurd (.inr hclosing) hfree
        · have hlength := congrArg List.length heq
          simp only [List.length_append] at hlength
          exact List.length_eq_zero_iff.1 (by omega)

end Delimiters

namespace Scan

/-! ## Behind the tag -/

/-- The tokens of a text behind the tag that sets its delimiters: the token of the
tag comes after the pragmas and in front of everything else. -/
def behindTag (d : Delimiters) (ts : List Token) : List Token :=
  let shifted := ts.map (Token.shifted (byteLength d.tag.toList))
  shifted.filter (fun t => t.kind = .pragma) ++
    .bare .delimiterTag 0 :: shifted.filter fun t => t.kind ≠ .pragma

/-- Tokens further on are put in the same order. -/
theorem hoistPragmas_shifted (bytes : Nat) (ts : List Token) :
    hoistPragmas (ts.map (Token.shifted bytes)) = (hoistPragmas ts).map (Token.shifted bytes) := by
  simp only [hoistPragmas, List.map_append, List.map_reverse, List.filter_map]
  rfl

/-- Everything else keeps its order. -/
theorem filter_hoistPragmas_plain (ts : List Token) :
    ((hoistPragmas ts).filter fun t => t.kind ≠ .pragma) =
      ts.filter fun t => t.kind ≠ .pragma := by
  rw [hoistPragmas, List.filter_append, List.filter_reverse, List.filter_filter,
    List.filter_filter]
  simp

/-- In front of a text the tag has its place behind the pragmas. -/
theorem hoistPragmas_behindTag (d : Delimiters) (ts : List Token) :
    hoistPragmas (.bare .delimiterTag 0 :: ts.map (Token.shifted (byteLength d.tag.toList))) =
      behindTag d (hoistPragmas ts) := by
  unfold behindTag
  dsimp only
  rw [← hoistPragmas_shifted, filter_hoistPragmas, filter_hoistPragmas_plain]
  rfl

section Tag

variable {d : Delimiters}

/-- The tag is read as far as it goes, and the delimiters are in force behind
it. -/
theorem reads_tag (hd : d.Accepted) (hfree : ¬ d.CutShort) (cs : List Char) :
    Reads ⟨0, 0, .standard⟩ (d.tag.toList ++ cs) [.bare .delimiterTag 0]
      (Cursor.shifted (byteLength d.tag.toList) ⟨0, 0, d⟩) cs := by
  have hspec : Delimiters.ofText?
      (String.ofList (Text.trim (' ' :: (d.text.toList ++ [' '])))) = some d := by
    rw [Text.trim_padded (Delimiters.trim_text hd), String.ofList_toList,
      Delimiters.ofText?_text hd]
  have htile : Tile ⟨0, 0, .standard⟩ d.tag.toList ([].flatten ++ cs) (.bare .delimiterTag 0)
      { (Cursor.past ⟨0, 0, .standard⟩ d.tag.toList) with delimiters := d } :=
    .delimiters d.toList_tag (.sigil rfl) (Delimiters.firstAfter_iff.2 hfree) hspec
  have hreads := (Tiles.cons htile (.nil _ _)).reads Delimiters.accepted_standard
  rw [List.flatten_singleton] at hreads
  have hnext : { (Cursor.past ⟨0, 0, .standard⟩ d.tag.toList) with delimiters := d } =
      Cursor.shifted (byteLength d.tag.toList) ⟨0, 0, d⟩ := by
    simp [Cursor.past, Cursor.shifted]
  rwa [hnext] at hreads

/-- There are no tokens in an empty text. -/
theorem scan_empty (d : Delimiters) : Token.scan d "" = .ok [] := by
  rw [Token.scan, String.toList_empty, tokensFrom]
  rfl

/-- **Behind the tag the text is scanned as it is from the delimiters.** -/
theorem scan_tag (hd : d.Accepted) (hfree : ¬ d.CutShort) (r : String) :
    Token.scan .standard (d.tag ++ r) =
      ((Token.scan d r).map (behindTag d)).mapError (Error.shifted (byteLength d.tag.toList)) := by
  rw [Token.scan, Token.scan, String.toList_append, (reads_tag hd hfree r.toList).tokensFrom_eq,
    tokensFrom_shifted]
  cases tokensFrom ⟨0, 0, d⟩ r.toList with
  | error e => rfl
  | ok ts => exact congrArg Except.ok (hoistPragmas_behindTag d ts)

/-- No token is lost among those put in order. -/
theorem hoistPragmas_perm (ts : List Token) : (hoistPragmas ts).Perm ts := by
  have hparts := List.filter_append_perm (fun t : Token => decide (t.kind = .pragma)) ts
  have hrest : (ts.filter fun t => t.kind ≠ .pragma) =
      ts.filter fun t => !decide (t.kind = .pragma) := by
    simp only [decide_not, ne_eq]
  rw [hoistPragmas, hrest]
  exact ((List.reverse_perm _).append_right _).trans hparts

/-- A set-delimiter tag is announced by its sigil. -/
theorem Announces.eq_of_delimiterTag {sigil after : List Char}
    (h : Announces sigil after .delimiterTag) : sigil = ['='] := by
  cases h with
  | @sigil c _ _ hc =>
    by_contra hother
    have hne : c ≠ '=' := fun heq => hother (heq ▸ rfl)
    unfold TokenKind.ofSigil? at hc
    rw [if_neg hne] at hc
    split_ifs at hc <;> cases hc

/-- The token of a set-delimiter tag lies on such a tag. -/
theorem Tile.exists_of_delimiterTag {start next : Cursor} {segment rest : List Char} {t : Token}
    (h : Tile start segment rest t next) (hkind : t.kind = .delimiterTag) :
    ∃ inside, segment = start.tag ['='] inside ('=' :: start.closing) ∧
      FirstAfter ('=' :: start.closing) inside := by
  cases h with
  | delimiters hsegment hsigil hfirst _ =>
    rw [hsigil.eq_of_delimiterTag] at hsegment
    exact ⟨_, hsegment, hfirst⟩
  | named _ _ hother _ => exact absurd hkind hother.2.1
  | text | triple | tripleInside | pragma => cases hkind

/-- **A tag that is cut short is not one set-delimiter tag.** -/
theorem scan_tag_of_cutShort (hshort : d.CutShort) :
    Token.scan .standard d.tag ≠ .ok (behindTag d []) := by
  intro hscan
  obtain ⟨raw, segments, stop, hraw, htext, htiles⟩ :=
    exists_tiles_of_scan Delimiters.accepted_standard hscan
  have hone : raw = [.bare .delimiterTag 0] := by
    refine List.perm_singleton.1 ((hoistPragmas_perm raw).symm.trans ?_)
    rw [← hraw]
    exact .refl _
  subst hone
  cases htiles with
  | @cons _ _ _ segment _ segments _ _ htile hmore =>
    cases hmore
    obtain ⟨inside, hsegment, hfirst⟩ := htile.exists_of_delimiterTag rfl
    rw [List.flatten_singleton, hsegment, Delimiters.toList_tag] at htext
    -- the whole of it would be the tag, up to the first end
    have hinside := List.append_cancel_right
      (List.append_cancel_left (List.append_cancel_left htext))
    rw [← hinside] at hfirst
    exact Delimiters.firstAfter_iff.1 hfirst hshort

end Tag

/-- **The two ways agree on a text**: behind the tag it has the tokens that it has
from the delimiters, further on by the length of the tag, or the same error with
the same message. -/
structure SetsAlike (d : Delimiters) (r : String) : Prop where
  ok : ∀ ts, Token.scan d r = .ok ts → Token.scan .standard (d.tag ++ r) = .ok (behindTag d ts)
  error : ∀ e, Token.scan d r = .error e →
    ∃ e', Token.scan .standard (d.tag ++ r) = .error e' ∧
      e' = e.shifted (byteLength d.tag.toList) ∧ e'.message = e.message

/-- **Delimiters can be set from outside or by a tag.** The two ways agree on every
text, exactly if neither of the delimiters has an end of a set-delimiter tag in
it. -/
theorem setsAlike_iff {d : Delimiters} (hd : d.Accepted) :
    (∀ r, SetsAlike d r) ↔ ¬ d.CutShort := by
  constructor
  · intro halike hshort
    refine scan_tag_of_cutShort hshort ?_
    have hempty := (halike "").ok [] (scan_empty d)
    rwa [String.append_empty] at hempty
  · intro hfree r
    have hscan := scan_tag hd hfree r
    refine ⟨fun ts hts => ?_, fun e he => ?_⟩
    · rw [hscan, hts]
      rfl
    · rw [he] at hscan
      exact ⟨_, hscan, rfl, e.message_shifted _⟩

/-- An equals sign in a delimiter alone does no harm. -/
def arrows : Delimiters := ⟨"<=é", "=>"⟩

theorem setsAlike_iff_of_arrows :
    arrows.Accepted ∧ ¬ arrows.CutShort ∧ ∀ r, SetsAlike arrows r := by
  have haccepted : arrows.Accepted := ⟨"<=é =>", by decide⟩
  have hfree : ¬ arrows.CutShort := by decide
  exact ⟨haccepted, hfree, (setsAlike_iff haccepted).2 hfree⟩

/-- The first of the delimiters has the end of a tag in it. -/
def blunt : Delimiters := ⟨"a=\x7d\x7d", "b"⟩

/-- **Not all delimiters can be set by a tag.** The tag ends in the first of these, with
one word inside. -/
theorem not_setsAlike_blunt :
    blunt.Accepted ∧ blunt.tag = "\x7b\x7b= a=\x7d\x7d b =\x7d\x7d" ∧
      Token.scan blunt "" = .ok [] ∧
      (∃ e, Token.scan .standard (blunt.tag ++ "") = .error e ∧
        e.message = "Invalid delimiters: a") ∧ ¬ SetsAlike blunt "" := by
  have haccepted : blunt.Accepted := ⟨"a=\x7d\x7d b", by decide⟩
  have herror : ∃ e, Token.scan .standard (blunt.tag ++ "") = .error e ∧
      e.message = "Invalid delimiters: a" := by
    have hmessage : (match Token.scan .standard (blunt.tag ++ "") with
        | .error e => some e.message
        | .ok _ => none) = some "Invalid delimiters: a" := by decide +kernel
    cases hscan : Token.scan .standard (blunt.tag ++ "") with
    | ok ts => rw [hscan] at hmessage; cases hmessage
    | error e => rw [hscan] at hmessage; exact ⟨e, rfl, Option.some.inj hmessage⟩
  refine ⟨haccepted, by decide, scan_empty _, herror, fun halike => ?_⟩
  obtain ⟨e, hscan, -⟩ := herror
  rw [halike.ok [] (scan_empty _)] at hscan
  cases hscan

end Scan

end Mustache
