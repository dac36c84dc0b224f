import Mustache.Proofs.Delimiters
import Mustache.Tree
/-!
# Mustache — the tokens of a line

The scanner counts a line up only at a piece of text, and only where the
piece ends in a newline. So the tokens of a template fall into lines: each
token stands on the line of the one before it, or on the next line if that
one ended its line. `OnLines` says this of a list of tokens, scanning
establishes it (`onLines_scan`), and `IsLine` cuts the first line off.
-/

namespace Mustache

namespace Token

/-- A token as the scanner makes it: nothing of what the parser adds, text
in pieces of text only, and a name in tags only. -/
structure Fresh (t : Token) : Prop where
  name_of_text : t.kind = .text → t.name? = none
  text_of_tag : t.kind ≠ .text → t.text? = none
  indent : t.indent? = none
  nodes : t.nodes? = none

/-- Only text ends a line. -/
theorem Fresh.endsLine_of_tag {t : Token} (h : t.Fresh) (hkind : t.kind ≠ .text) :
    t.endsLine = false := by
  simp [endsLine, text, h.text_of_tag hkind]

end Token

/-- **Tokens on lines**: the first one stands on line `n`, and each other
one on the line of the one before it, or on the next line if that one
ended its line. -/
def OnLines : Nat → List Token → Prop
  | _, [] => True
  | n, t :: ts => t.Fresh ∧ t.line = n ∧ OnLines (if t.endsLine then n + 1 else n) ts

/-- A line and what follows it: only its last token may end the line, and
must unless nothing follows. -/
inductive IsLine (n : Nat) : List Token → List Token → Prop
  | last {t : Token} {more : List Token} :
      t.Fresh → t.line = n → (t.endsLine = true ∨ more = []) → IsLine n [t] more
  | cons {t : Token} {l more : List Token} :
      t.Fresh → t.line = n → t.endsLine = false → IsLine n l more → IsLine n (t :: l) more

/-- The first line is cut off. -/
theorem OnLines.exists_line {n : Nat} {t : Token} {ts : List Token} (h : OnLines n (t :: ts)) :
    ∃ l more, t :: ts = l ++ more ∧ IsLine n l more ∧ OnLines (n + 1) more := by
  induction ts generalizing t with
  | nil =>
    obtain ⟨hfresh, hline, -⟩ := h
    exact ⟨[t], [], rfl, .last hfresh hline (.inr rfl), trivial⟩
  | cons u ts ih =>
    obtain ⟨hfresh, hline, hrest⟩ := h
    by_cases hend : t.endsLine = true
    · rw [if_pos hend] at hrest
      exact ⟨[t], u :: ts, rfl, .last hfresh hline (.inl hend), hrest⟩
    · rw [if_neg hend] at hrest
      obtain ⟨l, more, heq, hl, hmore⟩ := ih hrest
      refine ⟨t :: l, more, by rw [heq]; rfl, .cons hfresh hline ?_ hl, hmore⟩
      exact Bool.eq_false_iff.2 hend

namespace IsLine

variable {n : Nat} {l more : List Token}

theorem line_eq (h : IsLine n l more) : ∀ t ∈ l, t.line = n := by
  induction h with
  | last _ hline _ => simpa using hline
  | cons _ hline _ _ ih =>
    intro u hu
    rcases List.mem_cons.1 hu with rfl | hu
    · exact hline
    · exact ih u hu

theorem fresh (h : IsLine n l more) : ∀ t ∈ l, t.Fresh := by
  induction h with
  | last hfresh _ _ => simpa using hfresh
  | cons hfresh _ _ _ ih =>
    intro u hu
    rcases List.mem_cons.1 hu with rfl | hu
    · exact hfresh
    · exact ih u hu

theorem ne_nil (h : IsLine n l more) : l ≠ [] := by
  cases h <;> simp

end IsLine

theorem OnLines.le_line {n : Nat} {ts : List Token} (h : OnLines n ts) :
    ∀ t ∈ ts, n ≤ t.line := by
  induction ts generalizing n with
  | nil => simp
  | cons u ts ih =>
    obtain ⟨-, hline, hrest⟩ := h
    intro t ht
    rcases List.mem_cons.1 ht with rfl | ht
    · exact Nat.le_of_eq hline.symm
    · have hle := ih hrest t ht
      split at hle <;> omega

/-! ## Scanning puts tokens on lines -/

namespace Scan

theorem endsLine_readText (start : Cursor) (cs : List Char) :
    (readText start cs).next.line =
      if (readText start cs).token.endsLine then start.line + 1 else start.line := by
  have htext : (readText start cs).token.text.toList = (chunk start.opening cs).1 := by
    simp [readText, Token.ofText, Token.text]
  unfold Token.endsLine
  rw [htext]
  simp only [readText, decide_eq_true_eq]
  split <;> rfl

/-- What the scanner makes of a tag. -/
theorem fresh_tagToken (start : Cursor) (kind : TokenKind) (name : List Char) (offset : Nat)
    (hkind : kind ≠ .text) : (tagToken start kind name offset).Fresh where
  name_of_text h := absurd h hkind
  text_of_tag _ := rfl
  indent := rfl
  nodes := rfl

/-- A step that reads a tag: the token is a tag of the line that scanning
is on, which stays, and it is written with the delimiters in force, which
stay or give way to accepted ones. -/
structure ReadsTag (start : Cursor) (step : Step) : Prop where
  fresh : step.token.Fresh
  kind : step.token.kind ≠ .text
  line : step.token.kind ≠ .pragma → step.token.line = start.line
  next : step.next.line = start.line
  delimiters : ∀ d ∈ step.token.delimiters?, d = start.delimiters
  follow : step.next.delimiters = start.delimiters ∨ step.next.delimiters.Accepted

theorem readsTag_tagToken {start next : Cursor} {kind : TokenKind} {rest : List Char}
    (hkind : kind ≠ .text) (name : List Char) (offset : Nat) (hline : next.line = start.line)
    (hdelimiters : next.delimiters = start.delimiters) :
    ReadsTag start ⟨tagToken start kind name offset, next, rest⟩ where
  fresh := fresh_tagToken start kind name offset hkind
  kind := hkind
  line _ := rfl
  next := hline
  delimiters _ hd := (Option.mem_some.1 hd).symm
  follow := .inl hdelimiters

/-- **The ways in which a named tag is read.** -/
inductive Named (start : Cursor) (kind : TokenKind) (offset : Nat) (cs : List Char) : Step → Prop
  /-- Up to the closing delimiter. -/
  | plain {inside rest : List Char} : Text.cutAt? start.closing cs = some (inside, rest) →
      kind ≠ .tripleBrace →
      Named start kind offset cs
        ⟨tagToken start kind (Text.trim inside)
            (if kind = .closingTag then start.offset
            else offset + Text.byteLength inside + Text.byteLength start.closing),
          { start with
            offset := offset + Text.byteLength inside + Text.byteLength start.closing },
          rest⟩
  /-- Up to the third brace, which stands behind the closing delimiter. -/
  | braceBehind {inside rest : List Char} :
      Text.cutAt? start.closing cs = some (inside, '\x7d' :: rest) → kind = .tripleBrace →
      start.delimiters.closing = Delimiters.standard.closing →
      Named start kind offset cs
        ⟨tagToken start kind (Text.trim inside)
            (offset + Text.byteLength inside + Text.byteLength start.closing),
          { start with
            offset := offset + Text.byteLength inside + Text.byteLength start.closing + 1 },
          rest⟩
  /-- Up to the closing delimiter, with the third brace before it. -/
  | braceInside {inside rest : List Char} : Text.cutAt? start.closing cs = some (inside, rest) →
      kind = .tripleBrace → start.delimiters.closing ≠ Delimiters.standard.closing →
      (Text.trim inside).getLast? = some '\x7d' →
      Named start kind offset cs
        ⟨tagToken start kind (Text.trim (Text.trim inside).dropLast)
            (offset + Text.byteLength inside + Text.byteLength start.closing),
          { start with
            offset := offset + Text.byteLength inside + Text.byteLength start.closing },
          rest⟩

section Named

variable {start : Cursor} {kind : TokenKind} {offset : Nat} {cs : List Char} {step : Step}

theorem named_of_readNamed (h : readNamed start kind offset cs = .ok step) :
    Named start kind offset cs step := by
  unfold readNamed at h
  split at h
  · cases h
  · next inside rest hcut =>
    dsimp only at h
    split at h
    · next htriple =>
      subst htriple
      split at h
      · next hbraces =>
        split at h <;> cases h
        exact .braceBehind hcut rfl hbraces
      · next hbraces =>
        split at h
        · next hlast =>
          cases h
          exact .braceInside hcut rfl hbraces hlast
        · cases h
    · next htriple =>
      cases h
      exact .plain hcut htriple

theorem Named.readNamed_eq (h : Named start kind offset cs step) :
    readNamed start kind offset cs = .ok step := by
  unfold readNamed
  cases h with
  | plain hcut htriple =>
    rw [hcut]
    dsimp only
    rw [if_neg htriple]
  | braceBehind hcut htriple hbraces =>
    subst htriple
    rw [hcut]
    dsimp only
    rw [if_pos rfl, if_pos hbraces]
    rfl
  | braceInside hcut htriple hbraces hlast =>
    subst htriple
    rw [hcut]
    dsimp only
    rw [if_pos rfl, if_neg hbraces, if_pos hlast]
    rfl

theorem readsTag_readNamed (hkind : kind ≠ .text)
    (h : readNamed start kind offset cs = .ok step) : ReadsTag start step := by
  cases named_of_readNamed h <;> exact readsTag_tagToken hkind _ _ rfl rfl

theorem readNamed_kind (h : readNamed start kind offset cs = .ok step) :
    step.token.kind = kind := by
  cases named_of_readNamed h <;> rfl

end Named

theorem readDelimiters_kind {start : Cursor} {offset : Nat} {cs : List Char} {step : Step}
    (h : readDelimiters start offset cs = .ok step) : step.token.kind = .delimiterTag := by
  unfold readDelimiters at h
  split at h
  · cases h
  · dsimp only at h
    split at h <;> cases h
    rfl

theorem readPragma_kind {start : Cursor} {offset : Nat} {cs : List Char} {step : Step}
    (h : readPragma start offset cs = .ok step) : step.token.kind = .pragma := by
  unfold readPragma at h
  split at h <;> cases h
  rfl

theorem readsTag_readDelimiters {start : Cursor} {offset : Nat} {cs : List Char} {step : Step}
    (h : readDelimiters start offset cs = .ok step) : ReadsTag start step := by
  unfold readDelimiters at h
  split at h
  · cases h
  · dsimp only at h
    split at h
    · cases h
    · next hspec =>
      cases h
      exact ⟨⟨fun _ => rfl, fun _ => rfl, rfl, rfl⟩, nofun, fun _ => rfl, rfl, nofun,
        .inr ⟨_, hspec⟩⟩

theorem readsTag_readPragma {start : Cursor} {offset : Nat} {cs : List Char} {step : Step}
    (h : readPragma start offset cs = .ok step) : ReadsTag start step := by
  unfold readPragma at h
  split at h
  · cases h
  · cases h
    exact ⟨⟨nofun, fun _ => rfl, rfl, rfl⟩, nofun, fun hkind => absurd rfl hkind, rfl, nofun,
      .inl rfl⟩

/-- No sigil announces a text or an override. -/
theorem ofSigil?_ne {c : Char} {kind : TokenKind} (h : TokenKind.ofSigil? c = some kind) :
    kind ≠ .text ∧ kind ≠ .blockArg := by
  have hall : ∀ k, TokenKind.ofSigil? c = some k → k ≠ .text ∧ k ≠ .blockArg := by
    unfold TokenKind.ofSigil?
    iterate 11
      refine iteInduction (motive := fun found : Option TokenKind =>
        ∀ k, found = some k → k ≠ .text ∧ k ≠ .blockArg) (fun _ _ h => ?_) fun _ => ?_
      · cases h
        exact ⟨nofun, nofun⟩
    nofun
  exact hall kind h

/-- A tag has a name, sets delimiters or is a pragma. -/
theorem readTag_cases {start : Cursor} {cs : List Char} {step : Step}
    (h : readTag start cs = .ok step) :
    (∃ kind offset cs', kind ≠ .text ∧ kind ≠ .blockArg ∧
        readNamed start kind offset cs' = .ok step) ∨
      (∃ offset cs', readDelimiters start offset cs' = .ok step) ∨
      ∃ offset cs', readPragma start offset cs' = .ok step := by
  unfold readTag at h
  dsimp only at h
  split at h
  · exact .inl ⟨_, _, _, by decide, by decide, h⟩
  · split at h
    · exact .inl ⟨_, _, _, by decide, by decide, h⟩
    · exact .inr (.inl ⟨_, _, h⟩)
    · exact .inr (.inr ⟨_, _, h⟩)
    · next kind _ _ hsigil =>
      obtain ⟨htext, hoverride⟩ := ofSigil?_ne hsigil
      exact .inl ⟨kind, _, _, htext, hoverride, h⟩

theorem readsTag_readTag {start : Cursor} {cs : List Char} {step : Step}
    (h : readTag start cs = .ok step) : ReadsTag start step := by
  rcases readTag_cases h with ⟨kind, offset, cs', htext, -, h⟩ | ⟨offset, cs', h⟩ |
    ⟨offset, cs', h⟩
  · exact readsTag_readNamed htext h
  · exact readsTag_readDelimiters h
  · exact readsTag_readPragma h

/-- The line of the token read, and the line that scanning goes on at. -/
theorem readToken_line {start : Cursor} {cs : List Char} {step : Step}
    (h : readToken start cs = .ok step) (hkind : step.token.kind ≠ .pragma) :
    step.token.Fresh ∧ step.token.line = start.line ∧
      step.next.line = if step.token.endsLine then start.line + 1 else start.line := by
  unfold readToken at h
  split at h
  · have htag := readsTag_readTag h
    refine ⟨htag.fresh, htag.line hkind, ?_⟩
    rw [htag.next, htag.fresh.endsLine_of_tag htag.kind, if_neg (by simp)]
  · cases h
    exact ⟨⟨fun _ => rfl, fun h => absurd rfl h, rfl, rfl⟩, rfl, endsLine_readText start cs⟩

theorem onLines_tokensFrom {start : Cursor} {cs : List Char} {ts : List Token}
    (h : tokensFrom start cs = .ok ts) (hpragma : ∀ t ∈ ts, t.kind ≠ .pragma) :
    OnLines start.line ts := by
  fun_induction tokensFrom start cs generalizing ts with
  | case1 => cases h; trivial
  | case2 start c r step hstep ih =>
    cases hmore : tokensFrom step.next step.rest with
    | error e => rw [hmore] at h; cases h
    | ok more =>
      rw [hmore] at h
      cases h
      obtain ⟨hfresh, hline, hnext⟩ := readToken_line hstep (hpragma _ List.mem_cons_self)
      have hrest := ih hmore fun t ht => hpragma t (List.mem_cons_of_mem _ ht)
      rw [hnext] at hrest
      exact ⟨hfresh, hline, hrest⟩
  | case3 => cases h

/-- A list without pragmas is left as it is. -/
theorem hoistPragmas_eq_self {ts : List Token} (h : ∀ t ∈ ts, t.kind ≠ .pragma) :
    hoistPragmas ts = ts := by
  have hnone : ts.filter (fun t => decide (t.kind = .pragma)) = [] := by
    simpa [List.filter_eq_nil_iff] using h
  have hall : ts.filter (fun t => decide (t.kind ≠ .pragma)) = ts := by
    simpa [List.filter_eq_self] using h
  rw [hoistPragmas, hnone, hall]
  rfl

end Scan

/-- **The tokens of a template without pragma tags stand on lines.** -/
theorem onLines_scan {delimiters : Delimiters} {source : String} {ts : List Token}
    (h : Token.scan delimiters source = .ok ts) (hpragma : ∀ t ∈ ts, t.kind ≠ .pragma) :
    OnLines 0 ts := by
  unfold Token.scan at h
  cases hraw : Scan.tokensFrom ⟨0, 0, delimiters⟩ source.toList with
  | error e => rw [hraw] at h; cases h
  | ok raw =>
    rw [hraw] at h
    cases h
    have hnone : ∀ t ∈ raw, t.kind ≠ .pragma := by
      intro t ht hkind
      exact hpragma t (by simp [Scan.hoistPragmas, ht, hkind]) hkind
    rw [Scan.hoistPragmas_eq_self hnone]
    exact Scan.onLines_tokensFrom hraw hnone

end Mustache
