import Mathlib.Data.List.Forall2
import Mustache.Proofs.Caching
import Mustache.Proofs.Compiles
import Mustache.Proofs.DataAsText
import Mustache.Proofs.Reads
/-!
# Mustache — flat templates

A flat template is a sequence of pieces: chunks of text, and variables in
the three ways of writing them. `render_flat` says what it renders to over
plain data: the chunks as they stand and, for each variable, the text of
the value that the context gives for its name.

The proof follows a piece through the scanner, the parser, the compiler
and the renderer. The scanner cuts chunks at newlines and joins chunks
that stand next to each other, so pieces and tokens do not correspond one
to one: what is kept from there on is the text that tokens will show
(`Token.shown`).
-/

namespace Mustache

namespace Text

/-- A text that trimming leaves as it is is what is left of it between two
blanks. -/
theorem trim_padded {cs : List Char} (h : trim cs = cs) : trim (' ' :: (cs ++ [' '])) = cs := by
  have hstart : trimStart cs = cs := by
    refine (List.dropWhile_suffix _).eq_of_length_le ?_
    have hle : (trim cs).length ≤ (trimStart cs).length := by
      rw [trim, trimEnd, List.length_reverse]
      exact Nat.le_trans (List.dropWhile_suffix _).length_le (Nat.le_of_eq List.length_reverse)
    rw [h] at hle
    exact hle
  have hend : trimEnd cs = cs := by
    rw [trim, hstart] at h
    exact h
  have hblank : isBlank ' ' = true := by decide
  have hstart' : trimStart (' ' :: (cs ++ [' '])) = cs ++ [' '] ∨ cs = [] := by
    by_cases hempty : cs = []
    · exact .inr hempty
    · left
      rw [trimStart, List.dropWhile_cons_of_pos hblank, List.dropWhile_append,
        show List.dropWhile isBlank cs = cs from hstart, if_neg (by simpa using hempty)]
  rcases hstart' with hstart' | rfl
  · rw [trim, hstart', trimEnd, List.reverse_append, List.reverse_singleton, List.singleton_append,
      List.dropWhile_cons_of_pos hblank]
    exact hend
  · decide

/-- The first place where a pattern stands, if its first character does not
stand before. -/
theorem cutAt?_append {c : Char} {pattern inside : List Char} (h : c ∉ inside)
    (rest : List Char) :
    cutAt? (c :: pattern) (inside ++ (c :: pattern ++ rest)) = some (inside, rest) := by
  induction inside with
  | nil =>
    rw [List.nil_append, List.cons_append, cutAt?, ← List.cons_append, after?_append]
  | cons d inside ih =>
    rw [List.mem_cons, not_or] at h
    obtain ⟨hd, hinside⟩ := h
    rw [List.cons_append, cutAt?, after?, if_neg hd, ih hinside]
    rfl

end Text

/-! ## Pieces -/

/-- The ways of writing a variable. -/
inductive TagStyle where
  | escaped
  | triple
  | ampersand
  deriving DecidableEq, Repr

namespace TagStyle

/-- What stands before the name. -/
def before : TagStyle → List Char
  | .escaped => ['\x7b', '\x7b', ' ']
  | .triple => ['\x7b', '\x7b', '\x7b', ' ']
  | .ampersand => ['\x7b', '\x7b', '&', ' ']

/-- What stands after the name. -/
def after : TagStyle → List Char
  | .escaped | .ampersand => [' ', '\x7d', '\x7d']
  | .triple => [' ', '\x7d', '\x7d', '\x7d']

/-- The kind of tag that it is. -/
def kind : TagStyle → TokenKind
  | .escaped => .escaped
  | .triple => .tripleBrace
  | .ampersand => .ampersand

end TagStyle

/-- A piece of a flat template. -/
inductive Piece where
  | chunk (text : String)
  | tag (style : TagStyle) (name : String)

namespace Piece

/-- A piece as it is written. -/
def written : Piece → List Char
  | .chunk text => text.toList
  | .tag style name => style.before ++ (name.toList ++ style.after)

/-- The template that pieces make up. -/
def source (pieces : List Piece) : String := String.ofList (pieces.flatMap written)

/-- A text in which no tag begins, and none with what follows it. -/
def IsChunk (text : List Char) (isLast : Prop) : Prop :=
  ¬ ['\x7b', '\x7b'] <:+: text ∧ (¬ isLast → text.getLast? ≠ some '\x7b')

/-- A name that can be written between blanks and closing braces. -/
def IsName (name : String) : Prop :=
  name ≠ "" ∧ '\x7d' ∉ name.toList ∧ trimmed name = name

/-- The pieces can be told in the template they make up. -/
def Fit : List Piece → Prop
  | [] => True
  | .chunk text :: pieces => IsChunk text.toList (pieces = []) ∧ Fit pieces
  | .tag _ name :: pieces => IsName name ∧ Fit pieces

/-- What a piece renders to, given the values of names. -/
def shown (host : Host) (value : String → Value) : Piece → String
  | .chunk text => text
  | .tag .escaped name => Entities.escape Entities.standard ((value name).text host)
  | .tag _ name => (value name).text host

end Piece

/-- What a name stands for: the top frame under a dot alone, else what a
dotted name leads to. -/
def Context.named (host : Host) (c : Context) (name : String) : Except Error Value :=
  if name = "." then .ok (c.top?.getD .null) else c.findDotted host name

/-! ## The scanner -/

namespace Scan

open Piece (IsChunk IsName Fit)

/-- A tag that is a variable with this name, and no more. -/
structure IsVariable (style : TagStyle) (name : String) (t : Token) : Prop where
  kind : t.kind = style.kind
  name : t.name? = some name
  filters : t.filters = []
  nodes : t.nodes? = none

/-- The tokens of a flat template. -/
def IsFlat (t : Token) : Prop := IsPiece t ∨ ∃ style name, IsVariable style name t

section Standard

variable {c : Cursor} (h : c.delimiters = .standard)

include h

theorem opening_standard : c.opening = ['\x7b', '\x7b'] := by
  rw [Cursor.opening, h]
  decide

theorem closing_standard : c.closing = ['\x7d', '\x7d'] := by
  rw [Cursor.closing, h]
  decide

end Standard

/-- Reading a named tag, up to where the closing braces stand. -/
theorem readNamed_braces {start : Cursor} (hstart : start.delimiters = .standard)
    (kind : TokenKind) (hkind : kind ≠ .tripleBrace) (offset : Nat) {cs inside rest : List Char}
    (hcut : Text.cutAt? ['\x7d', '\x7d'] cs = some (inside, rest)) :
    ∃ step, readNamed start kind offset cs = .ok step ∧ step.next.delimiters = .standard ∧
      step.next.line = start.line ∧ step.rest = rest ∧
      ∃ place, step.token = tagToken start kind (Text.trim inside) place := by
  rw [← closing_standard hstart] at hcut
  exact ⟨_, (Named.plain hcut hkind).readNamed_eq, hstart, rfl, rfl, _, rfl⟩

/-- Reading a variable in triple braces. -/
theorem readNamed_triple {start : Cursor} (hstart : start.delimiters = .standard) (offset : Nat)
    {cs inside rest : List Char}
    (hcut : Text.cutAt? ['\x7d', '\x7d'] cs = some (inside, '\x7d' :: rest)) :
    ∃ step, readNamed start .tripleBrace offset cs = .ok step ∧
      step.next.delimiters = .standard ∧ step.rest = rest ∧
      ∃ place, step.token = tagToken start .tripleBrace (Text.trim inside) place := by
  rw [← closing_standard hstart] at hcut
  exact ⟨_, (Named.braceBehind hcut rfl (by rw [hstart])).readNamed_eq, hstart, rfl, _, rfl⟩

/-- A variable is read from where it stands up to what follows it. -/
theorem exists_read_variable {start : Cursor} (hstart : start.delimiters = .standard)
    (style : TagStyle) {name : String} (hname : IsName name) (rest : List Char) :
    ∃ step, readToken start ((Piece.tag style name).written ++ rest) = .ok step ∧
      step.next.delimiters = .standard ∧ step.rest = rest ∧ IsVariable style name step.token := by
  obtain ⟨-, hbrace, htrimmed⟩ := hname
  have hopening : start.opening = ['\x7b', '\x7b'] := opening_standard hstart
  have hread (cs : List Char) : readToken start ('\x7b' :: '\x7b' :: cs) = readTag start cs := by
    have h := readToken_opening (by rw [hopening]; nofun) cs
    rwa [hopening] at h
  have htrim : String.ofList (Text.trim (' ' :: (name.toList ++ [' ']))) = name := by
    have hlist : Text.trim name.toList = name.toList := by
      simpa [trimmed] using congrArg String.toList htrimmed
    rw [Text.trim_padded hlist, String.ofList_toList]
  have hmem : '\x7d' ∉ ' ' :: (name.toList ++ [' ']) := by simpa using hbrace
  have hcut (rest : List Char) : Text.cutAt? ['\x7d', '\x7d']
      (' ' :: (name.toList ++ [' ']) ++ ('\x7d' :: ['\x7d'] ++ rest)) =
        some (' ' :: (name.toList ++ [' ']), rest) := Text.cutAt?_append hmem rest
  have hvariable {step : Step} (kind : TokenKind) (hkind : kind = style.kind)
      (htoken : ∃ place,
        step.token = tagToken start kind (Text.trim (' ' :: (name.toList ++ [' ']))) place) :
      IsVariable style name step.token := by
    obtain ⟨place, htoken⟩ := htoken
    rw [htoken]
    exact ⟨hkind, congrArg some htrim, rfl, rfl⟩
  cases style with
  | escaped =>
    have hwritten : (Piece.tag .escaped name).written ++ rest = '\x7b' :: '\x7b' ::
        (' ' :: (name.toList ++ [' ']) ++ ('\x7d' :: ['\x7d'] ++ rest)) := by
      simp [Piece.written, TagStyle.before, TagStyle.after]
    obtain ⟨step, hstep, hnext, -, hrest, htoken⟩ := readNamed_braces hstart .escaped nofun
      (start.offset + Text.byteLength start.opening) (hcut rest)
    refine ⟨step, ?_, hnext, hrest, hvariable _ rfl htoken⟩
    rw [hwritten, hread, ← hstep]
    rfl
  | ampersand =>
    have hwritten : (Piece.tag .ampersand name).written ++ rest = '\x7b' :: '\x7b' :: '&' ::
        (' ' :: (name.toList ++ [' ']) ++ ('\x7d' :: ['\x7d'] ++ rest)) := by
      simp [Piece.written, TagStyle.before, TagStyle.after]
    obtain ⟨step, hstep, hnext, -, hrest, htoken⟩ := readNamed_braces hstart .ampersand nofun
      (start.offset + Text.byteLength start.opening + '&'.utf8Size) (hcut rest)
    refine ⟨step, ?_, hnext, hrest, hvariable _ rfl htoken⟩
    rw [hwritten, hread, ← hstep]
    rfl
  | triple =>
    have hwritten : (Piece.tag .triple name).written ++ rest = '\x7b' :: '\x7b' :: '\x7b' ::
        (' ' :: (name.toList ++ [' ']) ++ ('\x7d' :: ['\x7d'] ++ '\x7d' :: rest)) := by
      simp [Piece.written, TagStyle.before, TagStyle.after]
    obtain ⟨step, hstep, hnext, hrest, htoken⟩ := readNamed_triple hstart
      (start.offset + Text.byteLength start.opening + '\x7b'.utf8Size) (hcut ('\x7d' :: rest))
    refine ⟨step, ?_, hnext, hrest, hvariable _ rfl htoken⟩
    rw [hwritten, hread, ← hstep]
    rfl

/-- Where two braces stand in two texts put together, they stand in one of
them, or on both sides of where the texts meet. -/
theorem braces_append {u v : List Char} (h : ['\x7b', '\x7b'] <:+: u ++ v) :
    ['\x7b', '\x7b'] <:+: u ∨ ['\x7b', '\x7b'] <:+: v ∨ u.getLast? = some '\x7b' := by
  obtain ⟨before, after, heq⟩ := h
  rw [List.append_assoc] at heq
  rcases List.append_eq_append_iff.1 heq with ⟨w, hu, hw⟩ | ⟨w, hu, hv⟩
  · -- the braces begin inside the first text
    match w, hw with
    | [], hw => exact .inr (.inl ⟨[], after, by simpa using hw⟩)
    | [c], hw =>
      obtain ⟨rfl, -⟩ := List.cons.inj hw
      exact .inr (.inr (by rw [hu, List.getLast?_append]; rfl))
    | c :: d :: w, hw =>
      simp only [List.cons_append, List.nil_append, List.cons.injEq] at hw
      obtain ⟨rfl, rfl, -⟩ := hw
      exact .inl ⟨before, w, by rw [hu, List.append_assoc]; rfl⟩
  · exact .inr (.inl ⟨w, after, by rw [hv, List.append_assoc]⟩)

theorem isChunk_append {u v : List Char} {isLast : Prop} (hu : IsChunk u False)
    (hv : IsChunk v isLast) : IsChunk (u ++ v) isLast := by
  have hend : u.getLast? ≠ some '\x7b' := hu.2 not_false
  refine ⟨fun hbraces => ?_, fun hlast => ?_⟩
  · rcases braces_append hbraces with h | h | h
    · exact hu.1 h
    · exact hv.1 h
    · exact hend h
  · rw [List.getLast?_append]
    cases hlast' : v.getLast? with
    | none => exact hend
    | some c =>
      have hc := hv.2 hlast
      rw [hlast'] at hc
      exact hc

/-- In a chunk no tag begins. -/
theorem unopened_of_chunk {w cs : List Char} (h : IsChunk w (cs = [])) :
    Unopened ['\x7b', '\x7b'] w cs := by
  intro v hne hv
  obtain ⟨before, rfl⟩ := hv
  match v, hne with
  | [c], _ =>
    by_cases hc : '\x7b' = c
    · by_cases hcs : cs = []
      · subst hcs hc
        rfl
      · refine absurd ?_ (h.2 hcs)
        rw [List.getLast?_append, ← hc]
        rfl
    · simp [opened?, Text.after?, hc]
  | c :: d :: v, _ =>
    have hbraces : ¬ ('\x7b' = c ∧ '\x7b' = d) := by
      rintro ⟨rfl, rfl⟩
      exact h.1 ⟨before, v, by simp⟩
    by_cases hc : '\x7b' = c
    · have hd : '\x7b' ≠ d := fun hd => hbraces ⟨hc, hd⟩
      simp [opened?, Text.after?, hd]
    · simp [opened?, Text.after?, hc]

end Scan

/-! ## What tokens show -/

namespace Token

/-- What a token of a flat template renders to. -/
def shown (host : Host) (value : String → Value) (t : Token) : String :=
  match t.kind with
  | .text => t.text
  | .escaped => Entities.escape Entities.standard ((value t.name).text host)
  | _ => (value t.name).text host

end Token

namespace Scan

open Piece (IsChunk Fit)

variable {host : Host} {value : String → Value}

/-- Pieces of text show their text. -/
theorem shown_pieces {ts : List Token} (h : ∀ t ∈ ts, IsPiece t) :
    ts.flatMap (fun t => (t.shown host value).toList) = textOf ts := by
  induction ts with
  | nil => rfl
  | cons t ts ih =>
    obtain ⟨⟨text, line, rfl⟩, hts⟩ := List.forall_mem_cons.1 h
    rw [List.flatMap_cons, ih hts]
    rfl

theorem IsVariable.shown {style : TagStyle} {name : String} {t : Token}
    (h : IsVariable style name t) :
    t.shown host value = (Piece.tag style name).shown host value := by
  have hname : t.name = name := by rw [Token.name, h.name]; rfl
  cases style <;> simp only [Token.shown, h.kind, TagStyle.kind, hname, Piece.shown]

/-- **Pieces are scanned to tokens that show the same.** A text may stand
before them that was not read yet; a chunk is added to it, and a variable
ends it. -/
theorem exists_reads_pieces {pieces : List Piece} {w : List Char} {start : Cursor}
    (hstart : start.delimiters = .standard) (hw : IsChunk w (pieces = []))
    (hfit : Fit pieces) :
    ∃ ts stop, Reads start (w ++ pieces.flatMap Piece.written) ts stop [] ∧ (∀ t ∈ ts, IsFlat t) ∧
      ∀ host value, ts.flatMap (fun t => (t.shown host value).toList) =
        w ++ pieces.flatMap fun p => (p.shown host value).toList := by
  induction pieces generalizing w start with
  | nil =>
    have hclosed : Unopened start.opening w [] := by
      rw [opening_standard hstart]
      exact unopened_of_chunk ⟨hw.1, fun h => absurd rfl h⟩
    obtain ⟨ts, stop, hreads, -, hpieces, htext⟩ := exists_reads_text hclosed (.inl rfl)
    refine ⟨ts, stop, hreads, fun t ht => .inl (hpieces t ht), fun host value => ?_⟩
    rw [shown_pieces hpieces, htext]
    exact (List.append_nil w).symm
  | cons piece pieces ih =>
    have hpending : IsChunk w False := ⟨hw.1, fun _ => hw.2 nofun⟩
    cases piece with
    | chunk text =>
      -- nothing is read before the chunk ends, so it joins the text that is pending
      obtain ⟨htext, hfit⟩ := hfit
      obtain ⟨ts, stop, hreads, hflat, hshown⟩ := ih hstart (isChunk_append hpending htext) hfit
      rw [List.append_assoc] at hreads
      refine ⟨ts, stop, hreads, hflat, fun host value => ?_⟩
      rw [hshown, List.append_assoc]
      rfl
    | tag style name =>
      -- the pending text is read up to the tag, and after the tag none is pending
      obtain ⟨hname, hfit⟩ := hfit
      have hopened : ∃ cs, (Piece.tag style name).written ++ pieces.flatMap Piece.written =
          '\x7b' :: '\x7b' :: cs := by
        cases style <;> exact ⟨_, rfl⟩
      have hclosed : Unopened start.opening w
          ((Piece.tag style name).written ++ pieces.flatMap Piece.written) := by
        rw [opening_standard hstart]
        exact unopened_of_chunk ⟨hpending.1, fun _ => hpending.2 not_false⟩
      have htag : (opened? start.opening
          ((Piece.tag style name).written ++ pieces.flatMap Piece.written)).isSome = true := by
        obtain ⟨cs, hcs⟩ := hopened
        rw [hcs, opening_standard hstart]
        rfl
      obtain ⟨us, mid, hreads, hmid, hpieces, htext⟩ := exists_reads_text hclosed (.inr htag)
      obtain ⟨step, hread, hnext, hrest, hvariable⟩ := exists_read_variable
        (hmid.trans hstart) style hname (pieces.flatMap Piece.written)
      have hnothing : IsChunk [] (pieces = []) := ⟨by simp, fun _ => nofun⟩
      obtain ⟨ts, stop, hmore, hflat, hshown⟩ := ih hnext hnothing hfit
      have hne : (Piece.tag style name).written ++ pieces.flatMap Piece.written ≠ [] := by
        obtain ⟨cs, hcs⟩ := hopened
        rw [hcs]
        nofun
      rw [List.nil_append, ← hrest] at hmore
      refine ⟨us ++ step.token :: ts, stop, hreads.append (.cons hne hread hmore), ?_, ?_⟩
      · intro t ht
        rcases List.mem_append.1 ht with ht | ht
        · exact .inl (hpieces t ht)
        · rcases List.mem_cons.1 ht with rfl | ht
          · exact .inr ⟨style, name, hvariable⟩
          · exact hflat t ht
      · intro host value
        rw [List.flatMap_append, shown_pieces hpieces, htext, List.flatMap_cons, hshown,
          hvariable.shown]
        rfl

theorem kind_ne_pragma {t : Token} (h : IsFlat t) : t.kind ≠ .pragma := by
  rcases h with ⟨text, line, rfl⟩ | ⟨style, name, hvariable⟩
  · exact nofun
  · rw [hvariable.kind]
    cases style <;> exact nofun

/-- A way to the end of a text gives its tokens, if there are no pragmas. -/
theorem Reads.scan_eq {d : Delimiters} {text : String} {ts : List Token} {stop : Cursor}
    (h : Reads ⟨0, 0, d⟩ text.toList ts stop []) (hplain : ∀ t ∈ ts, t.kind ≠ .pragma) :
    Token.scan d text = .ok ts := by
  rw [Token.scan, tokensFrom_eq_ok_iff.2 ⟨stop, h⟩]
  exact congrArg Except.ok (hoistPragmas_eq_self hplain)

/-- A fitting sequence of pieces is scanned, and shows the same. -/
theorem exists_scan_source {pieces : List Piece} (hfit : Fit pieces) :
    ∃ ts, Token.scan .standard (Piece.source pieces) = .ok ts ∧ (∀ t ∈ ts, IsFlat t) ∧
      ∀ host value, ts.flatMap (fun t => (t.shown host value).toList) =
        pieces.flatMap fun p => (p.shown host value).toList := by
  have hnothing : IsChunk [] (pieces = []) := ⟨by simp, fun _ => nofun⟩
  have hstart : (⟨0, 0, .standard⟩ : Cursor).delimiters = .standard := rfl
  obtain ⟨ts, stop, hreads, hflat, hshown⟩ := exists_reads_pieces hstart hnothing hfit
  rw [List.nil_append, ← String.toList_ofList (l := pieces.flatMap Piece.written)] at hreads
  exact ⟨ts, hreads.scan_eq fun t ht => kind_ne_pragma (hflat t ht), hflat, hshown⟩

end Scan

/-! ## The parser and the compiler -/

open Scan (IsFlat IsPiece IsVariable)

namespace Tree

/-- Without pragmas a name is read as it stands. -/
theorem readName_plain (t : Token) : readName ⟨[]⟩ t = .ok t := by
  unfold readName
  split
  · rfl
  · rfl

/-- With these pragmas in effect the token is added as it stands. -/
def IsAdded (pragmas : PragmaSet) (t : Token) : Prop :=
  ∀ s rest, s.pragmas = pragmas → step s t rest = .ok ((s.countLine t.line).add t, false)

/-- A piece of text has no name that could be read otherwise. -/
theorem isAdded_piece {pragmas : PragmaSet} {t : Token} (ht : IsPiece t) : IsAdded pragmas t := by
  obtain ⟨text, line, rfl⟩ := ht
  intro s rest _
  rfl

theorem isAdded_flat {t : Token} (ht : IsFlat t) : IsAdded ⟨[]⟩ t := by
  intro s rest hs
  rcases ht with hpiece | ⟨style, name, hvariable⟩
  · exact isAdded_piece hpiece s rest hs
  · unfold step
    dsimp only
    rw [countLine_pragmas, hs, readName_plain]
    exact Placing.place_eq (.addLeaf (by rw [hvariable.kind]; cases style <;> decide))

theorem exists_build_of_added {pragmas : PragmaSet} {ts : List Token}
    (hts : ∀ t ∈ ts, IsAdded pragmas t) {s : State} (hs : s.pragmas = pragmas) :
    ∃ s', build s ts = .ok s' ∧ s'.siblings = ts.reverse ++ s.siblings ∧
      s'.opened = s.opened := by
  induction ts generalizing s with
  | nil => exact ⟨s, by rw [build], rfl, rfl⟩
  | cons t ts ih =>
    obtain ⟨ht, hts⟩ := List.forall_mem_cons.1 hts
    have hpragmas : ((s.countLine t.line).add t).pragmas = pragmas :=
      (countLine_pragmas s _).trans hs
    obtain ⟨s', hbuild, hsiblings, hopened⟩ := ih hts hpragmas
    refine ⟨s', ?_, ?_, ?_⟩
    · rw [build, ht s ts hs]
      exact hbuild
    · rw [hsiblings, State.add, countLine_siblings, List.reverse_cons, List.append_assoc]
      rfl
    · rw [hopened, State.add, countLine_opened]

/-- **Tokens that are added as they stand are the nodes of their tree.** -/
theorem exists_ofTokens_of_added {pragmas : List Pragma} {ts : List Token}
    (hts : ∀ t ∈ ts, IsAdded (.ofPragmas pragmas) t) :
    ∃ tree, ofTokens pragmas ts = .ok tree ∧ tree.nodes = ts := by
  obtain ⟨s, hbuild, hsiblings, hopened⟩ :=
    exists_build_of_added hts (s := ⟨none, 0, .ofPragmas pragmas, [], []⟩) rfl
  refine ⟨_, ofTokens_eq_ok_iff.2 ⟨s, hbuild, hopened, rfl⟩, ?_⟩
  rw [hsiblings]
  simp

end Tree

namespace Compile

variable {digest : String → String} {source : String}

/-- The instruction of a token of a flat template. -/
inductive IsFlatCode (t : Token) : Instr → Prop
  | text (starts : Bool) : t.kind = .text → IsFlatCode t (.text t.text starts)
  | interpolate {style : TagStyle} {name : String} (starts : Bool) : IsVariable style name t →
      IsFlatCode t (.interpolate (lookupOf ⟨[]⟩ name) [] (style = .escaped) starts)

/-- The code of a token of a flat template is one instruction. -/
theorem leafCode?_flat {t : Token} (ht : IsFlat t) (starts : Bool) :
    ∃ i, leafCode? ⟨[]⟩ starts t = some [i] ∧ IsFlatCode t i := by
  rcases ht with ⟨text, line, rfl⟩ | ⟨style, name, hvariable⟩
  · exact ⟨_, rfl, .text starts rfl⟩
  · have hname : t.name = name := by rw [Token.name, hvariable.name]; rfl
    refine ⟨_, ?_, .interpolate starts hvariable⟩
    unfold leafCode?
    cases style <;>
      simp only [hvariable.kind, TagStyle.kind, hname, hvariable.filters] <;> rfl

/-- Nodes of which each is one instruction are compiled one by one. -/
theorem forall₂_of_walked {pragmas : PragmaSet} {R : Token → Instr → Prop} {ts : List Token}
    (hts : ∀ t ∈ ts, ∀ starts, ∃ i, leafCode? pragmas starts t = some [i] ∧ R t i) {s s' : State}
    {code : List Instr} (hs : s.pragmas = pragmas) (h : Walked digest source s ts code s') :
    List.Forall₂ R ts code := by
  induction ts generalizing s code with
  | nil =>
    cases h
    exact .nil
  | cons t ts ih =>
    obtain ⟨ht, hts⟩ := List.forall_mem_cons.1 hts
    obtain ⟨i, hi, hcode⟩ := ht s.startsLine
    obtain ⟨rest, hrest, rfl⟩ := h.of_leaf (hs ▸ hi)
    exact .cons hcode (ih hts (by exact hs) hrest)

end Compile

/-! ## The renderer -/

namespace Context

variable {host : Host} {c : Context}

/-- A text without the character at which it is split. -/
theorem namesOf_of_not_mem {id : String} (h : '.' ∉ id.toList) : namesOf id = [id] := by
  have hsplit : ∀ cs : List Char, '.' ∉ cs → Text.splitWhere (· = '.') cs = [cs] := by
    intro cs hcs
    induction cs with
    | nil => rfl
    | cons d cs ih =>
      rw [List.mem_cons, not_or] at hcs
      rw [Text.splitWhere, ih hcs.2]
      simp [Ne.symm hcs.1]
  rw [namesOf, hsplit _ h, List.map_singleton, String.ofList_toList]

/-- Without pragmas a tag looks up what its name stands for. -/
theorem resolve_lookupOf (name : String) :
    c.resolve host (Compile.lookupOf ⟨[]⟩ name) = c.named host name := by
  unfold Compile.lookupOf named
  split
  · rfl
  · rw [if_neg (by simp [PragmaSet.has])]
    split
    · rfl
    · next hdot =>
      change c.find host name = c.findDotted host name
      rw [findDotted, namesOf_of_not_mem hdot]
      dsimp only
      cases c.find host name <;> rfl

end Context

namespace Render

variable {e : Engine} {again : Runner} {p : Program} {roots : List Value} {s : State}

section

variable (hroots : ∀ root ∈ roots, root.Plain) (hdrawn : s.context.DrawnFrom roots)

include hroots hdrawn

/-- A variable without filters writes the text of what it finds. -/
theorem outcome_interpolate {lookup : Lookup} {value : Value}
    (hresolve : s.context.resolve e.host lookup = .ok value) (escape starts : Bool) :
    outcome (instr e again p "" (.interpolate lookup [] escape starts)) s =
      (.ok (if escape then escaped e p (value.text e.host) else value.text e.host), s) := by
  have hwrites : WritesFound e roots (writer e e.lambdaProgram) := writesFound_writer hroots _
  have hfound : ∀ v, s.context.resolve e.host lookup = .ok v → v.FoundIn roots :=
    fun v hv => hdrawn.resolve hroots hv
  have hwritten := hwrites again p lookup [] escape s hdrawn hfound
  rw [← instrBy_own, instrBy, outcome_bind]
  change andThen (outcome (writer e e.lambdaProgram again p lookup [] escape) s) _ = _
  rw [hwritten, foundText, hresolve]
  cases starts <;> cases escape <;> exact congrArg (·, s) (congrArg Except.ok String.empty_append)

/-- **The code of a flat template writes what its tokens show**, and touches
nothing. -/
theorem outcome_flat {ts : List Token} {code : List Instr}
    (hcode : List.Forall₂ Compile.IsFlatCode ts code)
    (hescaping : p.escaping = .html Entities.standard) {value : String → Value}
    (hvalue : ∀ name, s.context.named e.host name = .ok (value name)) :
    outcome (instrs e again p "" code) s =
      (.ok (String.ofList (ts.flatMap fun t => (t.shown e.host value).toList)), s) := by
  induction hcode with
  | nil => rfl
  | @cons t i ts code hown _ ih =>
    have hinstr : outcome (instr e again p "" i) s = (.ok (t.shown e.host value), s) := by
      cases hown with
      | text starts hkind =>
        rw [Token.shown, hkind]
        cases starts <;> exact congrArg (·, s) (congrArg Except.ok String.empty_append)
      | @interpolate style name starts hvariable =>
        have hresolve : s.context.resolve e.host (Compile.lookupOf ⟨[]⟩ name) =
            .ok (value name) := (Context.resolve_lookupOf name).trans (hvalue name)
        rw [outcome_interpolate hroots hdrawn hresolve, hvariable.shown]
        cases style <;> simp [Piece.shown, escaped, hescaping]
    rw [instrs, outcome_bind, hinstr, andThen_ok, outcome_bind, ih, andThen_ok, outcome_pure,
      List.flatMap_cons, String.ofList_append, String.ofList_toList]

end

end Render

/-! ## Engines -/

namespace Engine

open Piece (Fit)

/-- The programs that the engine has at hand are what their templates
compile to. -/
def Recalls (e : Engine) (store : Store) : Prop :=
  ∀ source p, Entries.get? ((store.memos.get? e.memo).getD [])
    (e.classNameOf (e.textFingerprint source none)) = some p → e.compiled source none = .ok p

/-- An engine that has nothing at hand. -/
theorem recalls_of_new {e : Engine} {store : Store}
    (h : (store.memos.get? e.memo).getD [] = []) : e.Recalls store := by
  intro source p hp
  rw [h] at hp
  cases hp

/-- An engine with digests without collisions, whatever it and others have
done. -/
theorem recalls_of_sound {e : Engine} {store : Store} (hfree : CollisionFree e.digest)
    (he : e.HasAccepted) (hs : store.Sound e.digest) : e.Recalls store :=
  fun _ _ hp => (hs.memos.get? hp).eq_compile hfree rfl he .none

variable {host : Host} {digest : String → String} {memo : Nat} {store : Store} {data : Value}

/-- An engine that is not told otherwise takes the name of a template for
its text, and gives what that compiles to. -/
theorem template_of_recalls (hrecalls : (standard host digest memo).Recalls store)
    {source : String} {p : Program}
    (hp : (standard host digest memo).compiled source none = .ok p) :
    ∃ store', outcome ((standard host digest memo).template source) store = (.ok p, store') := by
  have hload : outcome ((standard host digest memo).loader.load source) store =
      (.ok (.text source), store) := rfl
  unfold template
  rw [outcome_bind, hload, andThen_ok]
  unfold program className OnStore.memo?
  simp only [outcome_bind, outcome_pure, outcome_get, andThen_ok]
  split
  · next found hfound =>
    cases hp.symm.trans (hrecalls source found hfound)
    exact ⟨_, rfl⟩
  · have hfetch : outcome ((standard host digest memo).fetch (.text source) none
        ((standard host digest memo).classNameOf
          ((standard host digest memo).textFingerprint source none)) .disabled) store =
        (.ok p, store) := by
      unfold fetch compileAndSave loadedText Cache.load Cache.save
      simp only [outcome_bind, outcome_pure, andThen_ok, Option.bind_none, outcome_liftM]
      unfold compiled at hp
      rw [hp]
      rfl
    rw [outcome_bind, show (standard host digest memo).cache = .disabled from rfl, hfetch,
      andThen_ok]
    exact ⟨_, rfl⟩

/-- A flat template compiles to the code of its tokens, which show what its
pieces show. -/
theorem exists_compiled_flat (host : Host) (digest : String → String) (memo : Nat)
    {pieces : List Piece} (hfit : Fit pieces) :
    ∃ p ts, (standard host digest memo).compiled (Piece.source pieces) none = .ok p ∧
      List.Forall₂ Compile.IsFlatCode ts p.body ∧ p.escaping = .html Entities.standard ∧
      ∀ host value, ts.flatMap (fun t => (t.shown host value).toList) =
        pieces.flatMap fun p => (p.shown host value).toList := by
  obtain ⟨ts, hscan, hflat, hshown⟩ := Scan.exists_scan_source hfit
  obtain ⟨tree, htree, hnodes⟩ : ∃ tree, Tree.ofTokens [] ts = .ok tree ∧ tree.nodes = ts :=
    Tree.exists_ofTokens_of_added fun t ht => Tree.isAdded_flat (hflat t ht)
  have hstart : Token.scan ((standard host digest memo).startingDelimiters none)
      (Piece.source pieces) = .ok ts := hscan
  have hcompiled : (standard host digest memo).compiled (Piece.source pieces) none =
      Program.compile digest [] (standard host digest memo).compileSettings
        ((standard host digest memo).classNameOf
          ((standard host digest memo).textFingerprint (Piece.source pieces) none))
        (Piece.source pieces) tree.nodes :=
    compile_of_parsed (e := standard host digest memo) hstart htree _
  obtain ⟨p, hp⟩ := Program.exists_compile hscan htree digest
    (standard host digest memo).compileSettings
  refine ⟨p, ts, hcompiled.trans hp, ?_⟩
  obtain ⟨body, s, hwalked, rfl⟩ := Program.exists_walked hp
  rw [hnodes] at hwalked
  have hcode :=
    Compile.forall₂_of_walked (fun t ht => Compile.leafCode?_flat (hflat t ht)) rfl hwalked
  exact ⟨hcode, rfl, hshown⟩

/-- What the default engine renders pieces to. -/
theorem render_pieces {pieces : List Piece} (hdata : data.Plain) (hfit : Fit pieces)
    (hrecalls : (standard host digest memo).Recalls store) (depth : Nat)
    {value : String → Value}
    (hvalue : ∀ name, ((standard host digest memo).contextFor data).named host name =
      .ok (value name)) :
    (outcome ((standard host digest memo).render (depth + 1) (Piece.source pieces) data)
      store).1 = .ok (String.ofList (pieces.flatMap fun p => (p.shown host value).toList)) := by
  obtain ⟨p, ts, hcompiled, hcode, hescaping, hshown⟩ :=
    exists_compiled_flat host digest memo hfit
  obtain ⟨store', htemplate⟩ := template_of_recalls hrecalls hcompiled
  have hroots : ∀ root ∈ (standard host digest memo).roots data, root.Plain :=
    plain_roots hdata nofun
  have hrun : outcome (Render.instrs (standard host digest memo)
      (Render.code (standard host digest memo) depth) p "" p.body)
      ⟨(standard host digest memo).contextFor data, store'⟩ =
        (.ok (String.ofList (ts.flatMap fun t => (t.shown host value).toList)), _) :=
    Render.outcome_flat hroots (drawnFrom_contextFor _ data) hcode hescaping hvalue
  have hworking : outcome (working ((standard host digest memo).template (Piece.source pieces)))
      store = (.ok p, store') := by
    rw [outcome_working, htemplate]
    rfl
  unfold render
  rw [outcome_bind, hworking, andThen_ok]
  change (outcome (Render.instrs (standard host digest memo)
    (Render.code (standard host digest memo) depth) p "" p.body)
    ⟨(standard host digest memo).contextFor data, store'⟩).1 = _
  rw [hrun, hshown]

/-- **Flat templates render piece by piece.** Over plain data an engine that
is not told otherwise renders the chunks as they stand and each variable as
the text of the value that the context gives for its name, escaped if it is
written in double braces. A text without double braces renders to itself. -/
theorem render_flat {pieces : List Piece} (hdata : data.Plain) (hfit : Fit pieces)
    (hrecalls : (standard host digest memo).Recalls store) (depth : Nat) :
    ∃ value : String → Value,
      (∀ name, ((standard host digest memo).contextFor data).named host name =
        .ok (value name)) ∧
      (outcome ((standard host digest memo).render (depth + 1) (Piece.source pieces) data)
        store).1 = .ok (String.join (pieces.map (Piece.shown host value))) ∧
      ∀ text, ¬ ['\x7b', '\x7b'] <:+: text.toList →
        (outcome ((standard host digest memo).render (depth + 1) text data) store).1 =
          .ok text := by
  have hroots : ∀ root ∈ (standard host digest memo).roots data, root.Plain :=
    plain_roots hdata nofun
  have hdrawn := drawnFrom_contextFor (standard host digest memo) data
  have hnamed : ∀ name, ∃ value,
      ((standard host digest memo).contextFor data).named host name = .ok value := by
    intro name
    unfold Context.named
    split
    · exact ⟨_, rfl⟩
    · obtain ⟨value, hfind, -⟩ :
          ∃ v, Context.findDotted host _ name = .ok v ∧ v.FoundIn _ :=
        hdrawn.findDotted hroots name
      exact ⟨value, hfind⟩
  choose value hvalue using hnamed
  refine ⟨value, hvalue, ?_, fun text htext => ?_⟩
  · rw [render_pieces hdata hfit hrecalls depth hvalue]
    refine congrArg Except.ok (String.toList_inj.1 ?_)
    rw [String.toList_ofList, String.toList_join, List.flatMap_map]
  · have hchunk : Fit [.chunk text] := ⟨⟨htext, fun h => absurd rfl h⟩, trivial⟩
    have hrendered := render_pieces hdata hchunk hrecalls depth hvalue
    simpa [Piece.source, Piece.written, Piece.shown] using hrendered

/-- A brace and a blank line before two variables, and a brace after. -/
theorem render_flat_of_pieces :
    let e := standard .inert id 0
    let store := Store.ofFiles (.empty "" [])
    let data := Value.map [("a", .str "<\x7b\x7b"), ("b", .list [.int 7])]
    let pieces : List Piece := [.chunk "\x7b\n\n", .tag .escaped "a", .tag .triple "b.0",
      .tag .ampersand "a", .chunk "\x7d"]
    data.Plain ∧ Fit pieces ∧ e.Recalls store ∧
      (outcome (e.render 1 (Piece.source pieces) data) store).1.toOption =
        some "\x7b\n\n&lt;\x7b\x7b7<\x7b\x7b\x7d" ∧
      ∃ value : String → Value,
        (∀ name, (e.contextFor data).named .inert name = .ok (value name)) ∧
        (outcome (e.render 1 (Piece.source pieces) data) store).1 =
          .ok (String.join (pieces.map (Piece.shown .inert value))) := by
  intro e store data pieces
  have hdata : data.Plain := by
    refine .map ?_
    simp only [List.forall_mem_cons]
    refine ⟨.str _, .list ?_, nofun⟩
    simp only [List.forall_mem_cons]
    exact ⟨.of_leaf (fun _ h => by cases h; rfl) rfl, nofun⟩
  have hfit : Fit pieces := by
    refine ⟨⟨?_, fun _ => ?_⟩, ⟨?_, ?_, ?_⟩, ⟨?_, ?_, ?_⟩, ⟨?_, ?_, ?_⟩, ⟨?_, fun _ => ?_⟩,
      trivial⟩ <;>
      decide
  have hrecalls : e.Recalls store := recalls_of_new rfl
  obtain ⟨value, hvalue, hrender, -⟩ := render_flat hdata hfit hrecalls 0
  exact ⟨hdata, hfit, hrecalls, by decide +kernel, value, hvalue, hrender⟩

end Engine

end Mustache
