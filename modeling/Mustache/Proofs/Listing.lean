import Mustache.Proofs.Balance
/-!
# Mustache — the tokens in a tree

Read off depth first, a tree gives the tokens of its template back. A tag
that encloses others is written as its opening tag, what is inside, and its
closing tag (`marksOf`), and what comes out are the tokens in their order,
each with its name as the pragmas have it and with the kind that the open
tags give it (`Nesting.rewriteAll`). Missing are the set-delimiter tags, and
white space that went with a tag.

A step of the parser appends one mark (`marks_of_step`), after it may have
taken the last one away; and that is white space.
-/

namespace Mustache

/-- The token without what the parser adds to it. -/
def Token.asRead (t : Token) : Token := { t with indent? := none, stop? := none, nodes? := none }

namespace Tree

/-- What is listed of a tree. Of a closing tag a tree knows the name and
where it stands. -/
inductive Mark where
  | token (t : Token)
  | closing (name : String) (dynamic : Bool) (offset? : Option Nat)

namespace Mark

/-- The mark of a token. -/
def ofToken (t : Token) : Mark :=
  if t.kind = .closingTag then closing t.name t.dynamic t.offset? else token t.asRead

/-- A piece of text that is all white space. -/
def isBlank : Mark → Bool
  | token t => t.isBlank
  | closing _ _ _ => false

theorem isBlank_ofToken (t : Token) : (ofToken t).isBlank = t.isBlank := by
  unfold ofToken
  split
  · next hkind => simp [isBlank, Token.isBlank, hkind]
  · rfl

end Mark

mutual

/-- The marks of some nodes, in the order of the template. -/
def marksOf : List Token → List Mark
  | [] => []
  | t :: ts => marks t ++ marksOf ts

/-- The marks of a node: the node itself, and if it encloses others what is
inside and its closing tag. -/
def marks : Token → List Mark
  | t@⟨_, _, _, _, _, _, _, _, _, _, nodes?⟩ => .token t.asRead :: marksInside t nodes?

/-- The marks of what is inside a tag, and of its closing tag. -/
def marksInside (t : Token) : Option (List Token) → List Mark
  | none => []
  | some ts => marksOf ts ++ [.closing t.name t.dynamic t.stop?]

end

theorem marksOf_append (ts us : List Token) : marksOf (ts ++ us) = marksOf ts ++ marksOf us := by
  induction ts with
  | nil => rfl
  | cons t ts ih => simp [marksOf, ih]

theorem marks_eq (t : Token) : marks t = .token t.asRead :: marksInside t t.nodes? := by
  obtain ⟨_, _, _, _, _, _, _, _, _, _, nodes?⟩ := t
  rw [marks]

/-- A node that encloses nothing. -/
theorem marks_of_leaf {t : Token} (h : t.nodes? = none) : marks t = [.token t.asRead] := by
  rw [marks_eq, h, marksInside]

/-- A tag that is closed. -/
theorem marks_closed (tag : Token) (offset? : Option Nat) (ts : List Token) :
    marks { tag with stop? := offset?, nodes? := some ts } =
      .token tag.asRead :: (marksOf ts ++ [.closing tag.name tag.dynamic offset?]) := by
  rw [marks_eq]
  rfl

/-! ## What becomes of a token -/

namespace Nesting

/-- A token whose name has been read, as the tree has it: directly inside a
parent tag a block is an override, and without the pragma it is a variable
with the sigil in its name. -/
def reshape (n : Nesting) (t : Token) : Token :=
  if t.kind = .blockVar then
    if n.pragmas.has .blocks then if n.inParent then { t with kind := .blockArg } else t
    else { t with kind := .escaped, name? := some ("$" ++ t.name) }
  else t

/-- **What becomes of a token**: its name is read as the pragmas in effect
have it, and a block is what the open tags make of it. -/
def rewrite (n : Nesting) (t : Token) : Token := n.reshape (reading n.pragmas t)

/-- The pragmas in effect and the open tags after a token. One that is refused
changes nothing. -/
def after (n : Nesting) (t : Token) : Nesting := (n.take t).toOption.getD n

/-- What becomes of token after token. -/
def rewriteAll (n : Nesting) : List Token → List Token
  | [] => []
  | t :: ts => n.rewrite t :: (n.after t).rewriteAll ts

variable {n m : Nesting} {t : Token} {ts : List Token}

theorem rewriteAll_cons (h : n.take t = .ok m) :
    n.rewriteAll (t :: ts) = n.rewrite t :: m.rewriteAll ts := by
  rw [rewriteAll, after, h]
  rfl

theorem reshape_of_ne (h : t.kind ≠ .blockVar) : n.reshape t = t := if_neg h

end Nesting

/-! ## The marks of a tree under construction -/

namespace State

/-- The marks of the open tags, of what stands before them, and of the nodes
inside the innermost one. -/
def marks (s : State) : List Mark :=
  (s.opened.reverse.flatMap fun o => marksOf o.before.reverse ++ [.token o.tag.asRead]) ++
    marksOf s.siblings.reverse

variable (s : State)

theorem marks_add (node : Token) : (s.add node).marks = s.marks ++ Tree.marks node := by
  simp [marks, add, marksOf_append, marksOf]

theorem marks_enter (tag : Token) : (s.enter tag).marks = s.marks ++ [.token tag.asRead] := by
  simp [marks, enter, marksOf]

/-- The innermost open tag is closed. -/
theorem marks_close {o : OpenTag} {opened : List OpenTag} (h : s.opened = o :: opened)
    (offset? : Option Nat) :
    { s with
      siblings := { o.tag with stop? := offset?, nodes? := some s.siblings.reverse } :: o.before
      opened := opened }.marks =
      s.marks ++ [.closing o.tag.name o.tag.dynamic offset?] := by
  simp [marks, h, marksOf_append, marksOf, marks_closed]

/-- No tag is open. -/
theorem marks_of_closed (h : s.opened = []) : s.marks = marksOf s.siblings.reverse := by
  rw [marks, h]
  rfl

/-- The last sibling has the last marks. -/
theorem marks_of_siblings {node : Token} {before : List Token} (h : s.siblings = node :: before) :
    s.marks = { s with siblings := before }.marks ++ Tree.marks node := by
  simp [marks, h, marksOf_append, marksOf]

end State

/-- The mark that a token adds whose name has been read: none if it sets
delimiters. -/
def newMarks (n : Nesting) (t : Token) : List Mark :=
  if t.kind = .delimiterTag then [] else [.ofToken (n.reshape t)]

section Step

variable {s s' : State} {t u : Token} {rest : List Token} {drops : Bool}

/-- A node that encloses nothing adds its mark. -/
theorem marks_add_of_leaf {node : Token} (hnodes : node.nodes? = none)
    (hkind : t.kind ≠ .delimiterTag)
    (hmark : .ofToken (s.nesting.reshape t) = Mark.token node.asRead) (s₁ : State) :
    (s₁.add node).marks = s₁.marks ++ newMarks s.nesting t := by
  rw [State.marks_add, marks_of_leaf hnodes, newMarks, if_neg hkind, hmark]

/-- As it was read, a partial has no indent. -/
theorem asRead_indented (t : Token) (lead? : Option Token) :
    (indented t lead?).asRead = t.asRead := by cases lead? <;> rfl

/-- Placing a token adds its mark, after the white space around it is taken
away. -/
theorem marks_of_place (h : place s u rest = .ok (s', drops)) (hnodes : u.nodes? = none) :
    ∃ l, LeftOf l s.siblings ∧
      s'.marks = { s with siblings := l }.marks ++ newMarks s.nesting u := by
  have hleft := clear_siblings s rest
  have hcleared : (clear s rest).state = { s with siblings := (clear s rest).state.siblings } :=
    clear_state s rest
  have hopened := clear_opened s rest
  -- no other kind than a block is reshaped, and only closing tags have marks of their own
  have hmark (hblock : u.kind ≠ .blockVar) (hclosing : u.kind ≠ .closingTag) :
      Mark.ofToken (s.nesting.reshape u) = .token u.asRead := by
    rw [Nesting.reshape_of_ne hblock, Mark.ofToken, if_neg hclosing]
  have hnew (hkind : u.kind ≠ .delimiterTag) :
      newMarks s.nesting u = [.ofToken (s.nesting.reshape u)] := if_neg hkind
  cases placing_of_place h with
  | pass hkind =>
    refine ⟨_, hleft, ?_⟩
    rw [← hcleared, newMarks, if_pos hkind, List.append_nil]
  | enter hkind =>
    refine ⟨_, hleft, ?_⟩
    rw [State.marks_enter, ← hcleared]
    rcases hkind with hkind | hkind <;>
      rw [hnew (by rw [hkind]; decide), hmark (by rw [hkind]; decide) (by rw [hkind]; decide)]
  | enterParent hkind =>
    refine ⟨_, .refl _, ?_⟩
    rw [State.marks_enter, hnew (by rw [hkind]; decide), hmark (by rw [hkind]; decide)
      (by rw [hkind]; decide)]
  | enterBlock hkind hblocks =>
    refine ⟨_, hleft, ?_⟩
    have hreshaped : s.nesting.reshape u =
        if s.nesting.inParent then { u with kind := .blockArg } else u :=
      (if_pos hkind).trans (if_pos hblocks)
    rw [hnew (by rw [hkind]; decide), hreshaped, State.marks_enter, ← hcleared,
      State.nesting_inParent]
    split <;> simp [Mark.ofToken, hkind]
  | close hkind hcons hname hdynamic =>
    refine ⟨_, hleft, ?_⟩
    rw [State.marks_close _ (hopened.trans hcons), ← hcleared, hnew (by rw [hkind]; decide),
      Nesting.reshape_of_ne (by rw [hkind]; decide), Mark.ofToken, if_pos hkind, hname, hdynamic]
  | addPartial hkind =>
    refine ⟨_, hleft, ?_⟩
    rw [← hcleared]
    refine marks_add_of_leaf (s := s) ((indented_nodes _ _).trans hnodes)
      (by rw [hkind]; decide) ?_ _
    rw [hmark (by rw [hkind]; decide) (by rw [hkind]; decide), asRead_indented]
  | addSigil hkind hblocks =>
    refine ⟨_, .refl _, ?_⟩
    have hreshaped : s.nesting.reshape u =
        { u with kind := .escaped, name? := some ("$" ++ u.name) } :=
      (if_pos hkind).trans (if_neg (Bool.eq_false_iff.1 hblocks))
    have hleaf (name? : Option String) : marks { u with kind := .escaped, name? := name? } =
        [.token { u with kind := .escaped, name? := name? }.asRead] := marks_of_leaf hnodes
    rw [State.marks_add, hleaf, hnew (by rw [hkind]; decide), hreshaped]
    rfl
  | addPragma hkind =>
    refine ⟨_, hleft, ?_⟩
    have hsame : ({ (clear s rest).state with pragmas := s.pragmas.enable u.name } : State).marks =
        (clear s rest).state.marks := rfl
    rw [← hcleared, ← hsame]
    exact marks_add_of_leaf (s := s) hnodes (by rw [hkind]; decide)
      (hmark (by rw [hkind]; decide) (by rw [hkind]; decide)) _
  | addComment hkind =>
    refine ⟨_, hleft, ?_⟩
    rw [← hcleared]
    exact marks_add_of_leaf (s := s) hnodes (by rw [hkind]; decide)
      (hmark (by rw [hkind]; decide) (by rw [hkind]; decide)) _
  | addLeaf hkind =>
    have hne {kind : TokenKind}
        (hkinds : kind ∉ [.text, .escaped, .tripleBrace, .ampersand, .blockArg]) : u.kind ≠ kind :=
      fun heq => hkinds (heq ▸ hkind)
    exact ⟨_, .refl _, marks_add_of_leaf (s := s) hnodes (hne (by decide))
      (hmark (hne (by decide)) (hne (by decide))) _⟩

/-- **A step appends the mark of its token**, after the white space around it
is taken away. -/
theorem marks_of_step (h : step s t rest = .ok (s', drops)) (ht : t.Fresh) :
    ∃ l, LeftOf l s.siblings ∧
      s'.marks = { s with siblings := l }.marks ++
        newMarks s.nesting (reading s.nesting.pragmas t) := by
  obtain ⟨u, hread, h⟩ := exists_of_step h
  have hreading : u = reading s.nesting.pragmas t := by
    rw [countLine_pragmas, readName_eq_reading] at hread
    split at hread
    · cases hread
    · exact (Except.ok.inj hread).symm
  have hnodes : u.nodes? = none := (sameButName_readName hread).nodes.trans ht.nodes
  obtain ⟨l, hl, hmarks⟩ := marks_of_place h hnodes
  rw [countLine_siblings] at hl
  refine ⟨l, hl, ?_⟩
  rw [hmarks, nesting_countLine, hreading]
  congr 1
  unfold State.countLine
  split <;> rfl

/-- Pieces of text enclose nothing. -/
structure State.TextsBare (s : State) : Prop where
  siblings : ∀ u ∈ s.siblings, u.kind = .text → u.nodes? = none
  before : ∀ o ∈ s.opened, ∀ u ∈ o.before, u.kind = .text → u.nodes? = none
  tags : ∀ o ∈ s.opened, o.tag.kind ≠ .text

/-- There is nothing at first. -/
theorem State.TextsBare.start (set : PragmaSet) :
    (⟨none, 0, set, [], []⟩ : State).TextsBare := ⟨by simp, by simp, by simp⟩

theorem textsBare_step (h : step s t rest = .ok (s', drops)) (hs : s.TextsBare) (ht : t.Fresh) :
    s'.TextsBare := by
  obtain ⟨l, hl, hturn⟩ := turn_of_step h
  have hleft := hl.forall_mem hs.siblings
  obtain ⟨line?, position, pragmas, siblings, opened⟩ := s'
  obtain ⟨line?', position', pragmas', siblings', opened'⟩ := s
  obtain ⟨-, hbefore, htags⟩ := hs
  dsimp only at hturn hbefore htags
  cases hturn with
  | pass => exact ⟨hleft, hbefore, htags⟩
  | leaf hleaf =>
    refine ⟨List.forall_mem_cons.2 ⟨fun _ => hleaf.nodes.trans ht.nodes, hleft⟩, hbefore, htags⟩
  | enter htag =>
    refine ⟨nofun, List.forall_mem_cons.2 ⟨hleft, hbefore⟩, List.forall_mem_cons.2 ⟨?_, htags⟩⟩
    rcases htag.kind with ⟨hkind, hopens⟩ | ⟨-, hkind, -⟩
    · rw [hkind]
      rintro htext
      rw [htext] at hopens
      exact absurd hopens (by decide)
    · rw [hkind]
      decide
  | @close _ o os =>
    obtain ⟨htag, htags⟩ := List.forall_mem_cons.1 htags
    obtain ⟨hown, hbefore⟩ := List.forall_mem_cons.1 hbefore
    exact ⟨List.forall_mem_cons.2 ⟨fun htext => absurd htext htag, hown⟩, hbefore, htags⟩

end Step

/-! ## White space that is missing -/

/-- **Some white space is missing** from a list of marks, and nothing else. -/
structure Thinned (kept all : List Mark) : Prop where
  /-- What is there is there in order, and not more often. -/
  sublist : kept.Sublist all
  /-- All that is no white space is there. -/
  solid : kept.filter (!·.isBlank) = all.filter (!·.isBlank)

namespace Thinned

variable {kept all : List Mark} {mark : Mark}

theorem refl (all : List Mark) : Thinned all all := ⟨.refl all, rfl⟩

theorem append (h : Thinned kept all) (more : List Mark) : Thinned (kept ++ more) (all ++ more) :=
  ⟨h.sublist.append_right more, by rw [List.filter_append, List.filter_append, h.solid]⟩

/-- White space that comes is left out at once. -/
theorem skip (h : Thinned kept all) (hblank : mark.isBlank = true) :
    Thinned kept (all ++ [mark]) := by
  refine ⟨h.sublist.trans (List.sublist_append_left all [mark]), ?_⟩
  rw [List.filter_append, h.solid, List.filter_cons_of_neg (by simpa using hblank),
    List.filter_nil, List.append_nil]

/-- White space is left out later. -/
theorem drop (h : Thinned (kept ++ [mark]) all) (hblank : mark.isBlank = true) :
    Thinned kept all := by
  refine ⟨(List.sublist_append_left kept [mark]).trans h.sublist, ?_⟩
  rw [← h.solid, List.filter_append, List.filter_cons_of_neg (by simpa using hblank),
    List.filter_nil, List.append_nil]

end Thinned

/-! ## The whole template -/

namespace Nesting

variable {n m : Nesting} {t : Token} {ts : List Token}

/-- **The marks of a list of tokens**, each as the tree has it. Set-delimiter
tags leave none. -/
def marks (n : Nesting) (ts : List Token) : List Mark :=
  ((n.rewriteAll ts).filter (·.kind ≠ .delimiterTag)).map .ofToken

theorem reshape_kind_iff : (n.reshape t).kind = .delimiterTag ↔ t.kind = .delimiterTag := by
  unfold reshape
  split
  · next hkind =>
    rw [hkind]
    split
    · split <;> simp [hkind]
    · simp
  · rfl

theorem marks_cons (h : n.take t = .ok m) :
    n.marks (t :: ts) = newMarks n (reading n.pragmas t) ++ m.marks ts := by
  rw [marks, rewriteAll_cons h, newMarks, List.filter_cons]
  by_cases hkind : (reading n.pragmas t).kind = .delimiterTag
  · have hkind' : (n.rewrite t).kind = .delimiterTag := reshape_kind_iff.2 hkind
    rw [if_pos hkind, if_neg (by simpa using hkind')]
    rfl
  · have hkind' : (n.rewrite t).kind ≠ .delimiterTag := mt reshape_kind_iff.1 hkind
    rw [if_neg hkind, if_pos (by simpa using hkind')]
    rfl

/-- White space leaves a mark that is white space. -/
theorem marks_cons_of_isBlank (hblank : t.isBlank = true) (ht : t.Fresh) :
    n.marks (t :: ts) = .ofToken t :: n.marks ts := by
  have hkind := isBlank_kind hblank
  have hread : reading n.pragmas t = t := reading_of_unnamed (ht.name_of_text hkind)
  rw [marks_cons (n.take_text hkind (ht.name_of_text hkind)), hread, newMarks,
    if_neg (by rw [hkind]; decide), reshape_of_ne (by rw [hkind]; decide)]
  rfl

end Nesting

variable {s s' : State} {ts : List Token}

/-- **The parser keeps every token but white space**, and keeps them in
order. -/
theorem thinned_build (hts : ∀ t ∈ ts, t.Fresh) (hs : s.TextsBare) (h : build s ts = .ok s')
    {written : List Mark} (hwritten : Thinned s.marks written) :
    Thinned s'.marks (written ++ s.nesting.marks ts) := by
  induction s, ts using build.induct generalizing written with
  | case1 s =>
    rw [build] at h
    cases h
    rwa [Nesting.marks, Nesting.rewriteAll, List.filter_nil, List.map_nil, List.append_nil]
  | case2 s t rest s₁ drops hstep ih =>
    rw [build, hstep] at h
    obtain ⟨ht, hrest⟩ := List.forall_mem_cons.1 hts
    obtain ⟨l, hl, hmarks⟩ := marks_of_step hstep ht
    rw [Nesting.marks_cons (take_of_step hstep), ← List.append_assoc]
    generalize newMarks s.nesting (reading s.nesting.pragmas t) = new at hmarks ⊢
    -- white space before the token may go
    have hleft : Thinned { s with siblings := l }.marks written := by
      rcases hl with rfl | ⟨lead, hblank, hsiblings⟩
      · exact hwritten
      · have hbare := hs.siblings lead (hsiblings ▸ List.mem_cons_self) (isBlank_kind hblank)
        rw [State.marks_of_siblings s hsiblings, marks_of_leaf hbare] at hwritten
        exact hwritten.drop hblank
    have hthinned : Thinned s₁.marks (written ++ new) := hmarks ▸ hleft.append new
    have hs₁ := textsBare_step hstep hs ht
    have hfresh : ∀ u ∈ if drops then rest.tail else rest, u.Fresh :=
      fun u hu => hrest u (mem_of_mem_after hu)
    cases drops with
    | false => exact ih hfresh hs₁ h hthinned
    | true =>
      -- and white space after it
      obtain ⟨next, more, rfl, hblank⟩ := exists_of_step_drops hstep
      have hskipped := ih hfresh hs₁ h (hthinned.skip ((Mark.isBlank_ofToken next).trans hblank))
      rw [Nesting.marks_cons_of_isBlank hblank (hrest next List.mem_cons_self)]
      rwa [List.append_assoc _ [_]] at hskipped
  | case3 s t rest e hstep =>
    rw [build, hstep] at h
    cases h

/-- **A tree keeps every token in order.** Listed depth first it gives the
tokens of its template back, each as its name is read and its surroundings
have it: in their order, each once, but for set-delimiter tags and some white
space. In particular every text that is more than white space is where it
stood, and a tag that encloses others has the offset of its own closing
tag. -/
theorem marksOf_ofTokens {delimiters : Delimiters} {source : String} {pragmas : List Pragma}
    {tree : Tree} (hscan : Token.scan delimiters source = .ok ts)
    (htree : ofTokens pragmas ts = .ok tree) :
    Thinned (marksOf tree.nodes) ((Nesting.start pragmas).marks ts) := by
  obtain ⟨s, hbuild, hopened, rfl⟩ := ofTokens_eq_ok_iff.1 htree
  have hstart : (⟨none, 0, .ofPragmas pragmas, [], []⟩ : State).TextsBare :=
    ⟨by simp, by simp, by simp⟩
  have hthinned := thinned_build (Scan.fresh_scan hscan) hstart hbuild (.refl _)
  have hmarks : s.marks = marksOf s.siblings.reverse := by
    rw [State.marks, hopened]
    rfl
  rw [hmarks] at hthinned
  exact hthinned

/-- A set-delimiter tag and a section, each on a line of its own. -/
def trimmedSection : String := "\x7b\x7b=| |=\x7d\x7d\n |#a|\nx|/a|"

/-- The two tags and the text between them are left of six tokens. -/
theorem marksOf_ofTokens_of_trimmed :
    ∃ ts tree, Token.scan .standard trimmedSection = .ok ts ∧ ofTokens [] ts = .ok tree ∧
      (marksOf tree.nodes).length = 3 ∧ ((Nesting.start []).marks ts).length = 6 ∧
      Thinned (marksOf tree.nodes) ((Nesting.start []).marks ts) := by
  have hlengths : ((Token.scan .standard trimmedSection).toOption.bind fun ts =>
      (ofTokens [] ts).toOption.map fun tree =>
        ((marksOf tree.nodes).length, ((Nesting.start []).marks ts).length)) = some (3, 6) := by
    decide +kernel
  obtain ⟨ts, hscan, hlengths⟩ := exists_of_toOption_bind hlengths
  obtain ⟨tree, htree, hlengths⟩ := exists_of_toOption_map hlengths
  obtain ⟨hkept, hall⟩ := Prod.mk.inj hlengths
  exact ⟨ts, tree, hscan, htree, hkept, hall, marksOf_ofTokens hscan htree⟩

end Tree

end Mustache
