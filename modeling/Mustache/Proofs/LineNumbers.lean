import Mustache.Proofs.Balance
import Mustache.Proofs.Tiling
/-!
# Mustache — the line of a token

The scanner counts a newline where it reads a piece of text, and passes over
those that stand inside a tag. So the line of a token is the number of newlines
before it less those inside the tags before it (`Tiles.line_eq`), and it is the
line that one sees in the text exactly if no tag before has a newline in it
(`lines_true_iff`). The same lines stand in the messages of errors: the scanner
fails at a tag, on the line that it has counted to, and the parser tells the
lines of tokens.
-/

namespace Mustache

/-! ## The lines in a message -/

/-- The tokens whose lines a message tells. -/
def Fault.told (token : Token) : Fault → List Token
  | .unclosedTag | .mismatchedBraces | .unexpectedClosing | .missingClosing => [token]
  | .nesting opening => [opening, token]
  | .invalidDelimiters _ | .invalidDynamicName | .illegalInParent | .misplaced => []

/-- Where a message tells no line, it is the same wherever the token stands. -/
theorem Fault.message_of_told_eq_nil {fault : Fault} {token : Token}
    (h : fault.told token = []) (line : Nat) :
    fault.message { token with line := line } = fault.message token := by
  cases fault with
  | unclosedTag | mismatchedBraces | unexpectedClosing | missingClosing | nesting => cases h
  | invalidDelimiters | invalidDynamicName | illegalInParent | misplaced => rfl

namespace Tree

open Token (Reshaped)

namespace Nesting

variable {n m : Nesting} {t : Token} {ts : List Token} {e : Error}

/-- An open tag is made of a token that has been taken, and not of a pragma. -/
def OpenedFrom (n : Nesting) (ts : List Token) : Prop :=
  ∀ u ∈ n.tags, ∃ v ∈ ts, v.kind ≠ .pragma ∧ v.Reshaped u

/-- A token is read as itself but for its name. -/
theorem reshaped_reading {set : PragmaSet} (h : ¬ MisplacedStar set t) :
    t.Reshaped (reading set t) := by
  have hread : readName set t = .ok (reading set t) := by rw [readName_eq_reading, if_neg h]
  exact (sameButName_readName hread).reshaped

theorem OpenedFrom.takes {done : List Token} (h : n.OpenedFrom done) (htakes : n.Takes t m) :
    m.OpenedFrom (t :: done) := by
  obtain ⟨hstar, hfits⟩ := htakes
  have hshape := reshaped_reading hstar
  have hkept : ∀ u ∈ n.tags, ∃ v ∈ t :: done, v.kind ≠ .pragma ∧ v.Reshaped u := by
    intro u hu
    obtain ⟨v, hv, hvu⟩ := h u hu
    exact ⟨v, List.mem_cons_of_mem t hv, hvu⟩
  generalize reading n.pragmas t = r at hfits hshape
  cases hfits with
  | opens hkind =>
    refine List.forall_mem_cons.2 ⟨⟨t, List.mem_cons_self, ?_, hshape⟩, hkept⟩
    rw [Ne, ← hshape.pragma_iff]
    rintro heq
    rw [heq] at hkind
    exact absurd hkind (by decide)
  | opensBlock hkind =>
    refine List.forall_mem_cons.2 ⟨⟨t, List.mem_cons_self, ?_, ?_⟩, hkept⟩
    · rw [Ne, ← hshape.pragma_iff, hkind]
      exact nofun
    · have hblock : t.kind = .blockVar := by
        rcases hshape.kind with heq | ⟨hblock, -⟩
        · exact heq.symm.trans hkind
        · exact hblock
      split
      · exact ⟨.inr ⟨hblock, nofun⟩, hshape.line, hshape.offset, hshape.text, hshape.delimiters⟩
      · exact hshape
  | closes _ htags =>
    rw [htags] at hkept
    exact (List.forall_mem_cons.1 hkept).2
  | stands | enables | plain | asVariable => exact hkept

theorem OpenedFrom.passes {done : List Token} (h : n.OpenedFrom done) (hpasses : n.Passes ts m) :
    m.OpenedFrom (ts.reverse ++ done) := by
  induction hpasses generalizing done with
  | nil => exact h
  | @cons _ _ _ t ts htakes _ ih =>
    rw [List.reverse_cons, List.append_assoc]
    exact ih (h.takes htakes)

/-- **The tokens told of a token that is refused** are made of tokens taken
before, or of this one. -/
theorem Refuses.exists_told (h : n.Refuses t e) {done : List Token} (hopened : n.OpenedFrom done) :
    ∃ fault u, e = .malformed fault u ∧
      ∀ w ∈ fault.told u, ∃ v ∈ t :: done, v.kind ≠ .pragma ∧ v.Reshaped w := by
  rcases h with ⟨-, rfl⟩ | ⟨hstar, hclashes⟩
  · exact ⟨_, _, rfl, List.forall_mem_nil _⟩
  · have hshape := reshaped_reading hstar
    have hclosing (hkind : (reading n.pragmas t).kind = .closingTag) :
        ∃ v ∈ t :: done, v.kind ≠ .pragma ∧ v.Reshaped (reading n.pragmas t) := by
      refine ⟨t, List.mem_cons_self, ?_, hshape⟩
      rw [Ne, ← hshape.pragma_iff, hkind]
      exact nofun
    cases hclashes with
    | inParent => exact ⟨_, _, rfl, List.forall_mem_nil _⟩
    | unexpected hkind => exact ⟨_, _, rfl, List.forall_mem_singleton.2 (hclosing hkind)⟩
    | @mismatched tag _ hkind htags =>
      obtain ⟨v, hv, htag⟩ := hopened tag (by rw [htags]; exact List.mem_cons_self)
      refine ⟨_, _, rfl, List.forall_mem_cons.2 ⟨⟨v, List.mem_cons_of_mem t hv, htag⟩, ?_⟩⟩
      exact List.forall_mem_singleton.2 (hclosing hkind)

end Nesting

/-- **The parser tells the lines of tokens**, and of no pragma. -/
theorem exists_told_of_error {pragmas : List Pragma} {ts : List Token} {e : Error}
    (hts : ∀ t ∈ ts, t.Fresh) (h : ofTokens pragmas ts = .error e) :
    ∃ fault t, e = .malformed fault t ∧
      ∀ u ∈ fault.told t, ∃ v ∈ ts, v.kind ≠ .pragma ∧ v.Reshaped u := by
  have hstart : (Nesting.start pragmas).OpenedFrom [] := List.forall_mem_nil _
  rcases (ofTokens_eq_error_iff hts).1 h with ⟨before, t, after, n, rfl, hpasses, hrefuses⟩ |
    ⟨n, tag, below, hpasses, htags, rfl⟩
  · obtain ⟨fault, u, rfl, htold⟩ := hrefuses.exists_told (hstart.passes hpasses)
    refine ⟨fault, u, rfl, fun w hw => ?_⟩
    obtain ⟨v, hv, hvw⟩ := htold w hw
    exact ⟨v, by simp at hv ⊢; tauto, hvw⟩
  · obtain ⟨v, hv, htag⟩ := hstart.passes hpasses tag (by rw [htags]; exact List.mem_cons_self)
    exact ⟨_, _, rfl, List.forall_mem_singleton.2 ⟨v, by simpa using hv, htag⟩⟩

end Tree

namespace Scan

/-! ## Counting -/

/-- The newlines inside the tags of a row, which are passed over. -/
def passedOver : List (List Char) → List Token → Nat
  | segment :: segments, t :: ts =>
    (if t.kind = .text then 0 else segment.count '\n') + passedOver segments ts
  | _, _ => 0

/-- Each tag of a row stands on one line. -/
def TagsOnOneLine (segments : List (List Char)) (ts : List Token) : Prop :=
  List.Forall₂ (fun segment t => t.kind ≠ .text → '\n' ∉ segment) segments ts

theorem passedOver_eq_zero_iff {segments : List (List Char)} {ts : List Token}
    (hlength : segments.length = ts.length) :
    passedOver segments ts = 0 ↔ TagsOnOneLine segments ts := by
  unfold TagsOnOneLine
  induction segments generalizing ts with
  | nil =>
    obtain rfl := List.length_eq_zero_iff.1 hlength.symm
    exact ⟨fun _ => .nil, fun _ => rfl⟩
  | cons segment segments ih =>
    cases ts with
    | nil => cases hlength
    | cons t ts =>
      have htag : (if t.kind = .text then 0 else segment.count '\n') = 0 ↔
          (t.kind ≠ .text → '\n' ∉ segment) := by
        rw [← List.count_eq_zero (a := '\n')]
        split
        · next htext => exact ⟨fun _ hne => absurd htext hne, fun _ => rfl⟩
        · next htext => exact ⟨fun h _ => h, fun h => h htext⟩
      rw [passedOver, Nat.add_eq_zero_iff, htag, ih (Nat.succ.inj hlength), List.forall₂_cons]

section Rows

variable {start next stop : Cursor} {segment rest : List Char} {segments : List (List Char)}
  {t : Token} {ts : List Token}

/-- A piece of text has a newline at its end or none. -/
theorem TextSegment.count_newline {opening piece : List Char}
    (h : TextSegment opening piece rest) :
    piece.count '\n' = if piece.getLast? = some '\n' then 1 else 0 := by
  rcases List.eq_nil_or_concat piece with rfl | ⟨front, c, rfl⟩
  · rfl
  · have hfront := h.newline
    rw [List.concat_eq_append, List.dropLast_concat] at hfront
    rw [List.concat_eq_append, List.count_append, List.count_eq_zero_of_not_mem hfront,
      Nat.zero_add, List.getLast?_concat, List.count_singleton]
    simp

/-- **One token**: the newlines of its segment are counted if it is text, and
passed over if it is a tag. -/
theorem Tile.line_eq (h : Tile start segment rest t next) :
    next.line + (if t.kind = .text then 0 else segment.count '\n') =
      start.line + segment.count '\n' := by
  cases h with
  | text _ hpiece =>
    rw [hpiece.count_newline]
    rfl
  | named _ hsigil _ _ => exact congrArg (start.line + ·) (if_neg hsigil.ne_text)
  | triple | tripleInside | delimiters | pragma => rfl

/-- A token stands on the line that has been counted to. -/
theorem Tile.token_line (h : Tile start segment rest t next) (hkind : t.kind ≠ .pragma) :
    t.line = start.line := by
  cases h with
  | pragma => exact absurd rfl hkind
  | text | named | triple | tripleInside | delimiters => rfl

/-- **A row of tokens**: what is counted, and what is passed over, are all its
newlines. -/
theorem Tiles.line_eq (h : Tiles start segments rest ts stop) :
    stop.line + passedOver segments ts = start.line + segments.flatten.count '\n' := by
  induction h with
  | nil => rfl
  | cons htile _ ih =>
    have hline := htile.line_eq
    rw [passedOver, List.flatten_cons, List.count_append]
    omega

end Rows

/-- **How a line is counted** behind a row of tokens: it falls short of the
newlines there by those inside tags, and so it is right just if there are
none. -/
structure Counted (line : Nat) (segments : List (List Char)) (ts : List Token) : Prop where
  eq : line + passedOver segments ts = segments.flatten.count '\n'
  right_iff : line = segments.flatten.count '\n' ↔ TagsOnOneLine segments ts

theorem Tiles.counted {d : Delimiters} {segments : List (List Char)} {rest : List Char}
    {ts : List Token} {stop : Cursor} (h : Tiles ⟨0, 0, d⟩ segments rest ts stop) :
    Counted stop.line segments ts := by
  have hline : stop.line + passedOver segments ts = segments.flatten.count '\n' :=
    h.line_eq.trans (Nat.zero_add _)
  refine ⟨hline, ?_⟩
  rw [← passedOver_eq_zero_iff h.length_eq]
  omega

/-- **Which lines are true.** The line of a token that is no pragma, and the
line in an error of the scanner, fall short of the newlines before by those that
stand inside tags; so they are true exactly if each tag before stands on one
line. A piece of text begins where its segment does, and so does a tag, with its
opening delimiter. The parser tells in its messages the lines of such tokens and
no others. -/
theorem lines_true_iff {d : Delimiters} (hd : d.Accepted) (source : String) :
    (∀ ts, Token.scan d source = .ok ts → ∃ raw segments stop, ts = hoistPragmas raw ∧
      source.toList = segments.flatten ∧ Tiles ⟨0, 0, d⟩ segments [] raw stop ∧
      ∀ before t after, raw = before ++ t :: after → t.kind ≠ .pragma →
        Counted t.line (segments.take before.length) before) ∧
    (∀ e, Token.scan d source = .error e → ∃ fault t before segments here rest,
      e = .malformed fault t ∧ source.toList = segments.flatten ++ rest ∧
      Tiles ⟨0, 0, d⟩ segments rest before here ∧ here.opening <+: rest ∧
      readToken here rest = .error e ∧ Counted t.line segments before) ∧
    ∀ pragmas ts e, Token.scan d source = .ok ts → Tree.ofTokens pragmas ts = .error e →
      ∃ fault t, e = .malformed fault t ∧
        ∀ u ∈ fault.told t, ∃ v ∈ ts, v.kind ≠ .pragma ∧ v.Reshaped u := by
  refine ⟨fun ts hscan => ?_, fun e hscan => ?_, fun pragmas ts e hscan => ?_⟩
  · obtain ⟨raw, segments, stop, hts, hsource, htiles⟩ := exists_tiles_of_scan hd hscan
    refine ⟨raw, segments, stop, hts, hsource, htiles, ?_⟩
    rintro before t after rfl hkind
    obtain ⟨earlier, later, mid, rfl, hbefore, hmore⟩ := htiles.exists_between
    rw [← hbefore.length_eq, List.take_left]
    cases hmore with
    | cons htile _ => exact htile.token_line hkind ▸ hbefore.counted
  · have hfails : tokensFrom ⟨0, 0, d⟩ source.toList = .error e := by
      unfold Token.scan at hscan
      cases htokens : tokensFrom ⟨0, 0, d⟩ source.toList with
      | ok ts => rw [htokens] at hscan; cases hscan
      | error e' => rw [htokens] at hscan; cases hscan; rfl
    obtain ⟨before, here, rest, hreads, herror⟩ := exists_reads_of_error hfails
    obtain ⟨segments, hsource, htiles⟩ := hreads.exists_tiles hd
    obtain ⟨hopening, fault, t, rfl, hline⟩ := errorAt_readToken herror
    exact ⟨fault, t, before, segments, here, rest, rfl, hsource, htiles, hopening, herror,
      hline ▸ htiles.counted⟩
  · exact Tree.exists_told_of_error (fresh_scan hscan)

/-- A line of text, a comment on the next two lines, and a variable behind it. -/
def behindComment : String := "a\n\x7b\x7b!\n\x7d\x7d\x7b\x7bb\x7d\x7d"

/-- The variable stands on line 2 and has line 1, as the comment has a newline
in it. -/
theorem lines_true_iff_of_comment :
    Delimiters.standard.Accepted ∧ ∃ ts, Token.scan .standard behindComment = .ok ts ∧
      (ts.map fun t => (t.kind, t.line)) = [(.text, 0), (.comment, 1), (.escaped, 1)] ∧
      ∃ raw segments stop, ts = hoistPragmas raw ∧ behindComment.toList = segments.flatten ∧
        Tiles ⟨0, 0, .standard⟩ segments [] raw stop ∧
        ∀ before t after, raw = before ++ t :: after → t.kind ≠ .pragma →
          Counted t.line (segments.take before.length) before := by
  have htokens : ((Token.scan .standard behindComment).toOption.map
      (List.map fun t => (t.kind, t.line))) =
        some [(.text, 0), (.comment, 1), (.escaped, 1)] := by decide +kernel
  obtain ⟨ts, hscan, hmap⟩ := exists_of_toOption_map htokens
  exact ⟨Delimiters.accepted_standard, ts, hscan, hmap,
    (lines_true_iff Delimiters.accepted_standard behindComment).1 ts hscan⟩

/-- A comment on two lines, and behind it a tag that is not closed. -/
def unclosedBehindComment : String := "\x7b\x7b!\n\x7d\x7d\x7b\x7b"

/-- **A line that is not true**: the tag that is not closed begins at byte 6,
which stands on line 1, and its error says line 0. -/
theorem line_behind_comment :
    ∃ t, Token.scan .standard unclosedBehindComment = .error (.malformed .unclosedTag t) ∧
      t.offset? = some 6 ∧
      (Text.takeBytes? 6 unclosedBehindComment.toList).map (·.count '\n') = some 1 ∧
      t.line = 0 ∧ Fault.unclosedTag.message t = "Unclosed tag on line 0" := by
  let t := tagToken ⟨6, 0, .standard⟩ .escaped [] 6
  exact ⟨t, by cbv, rfl, by decide, rfl, by decide +kernel⟩

end Scan

end Mustache
