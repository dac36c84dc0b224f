import Mustache.Proofs.Behind
import Mustache.Proofs.Standalone
/-!
# Mustache — a node in front of everything

Two runs of the parser side by side: one over the tokens of a template,
and one over the same tokens behind a line, where a node that is no white
space stands in front of everything. They build the same nodes
(`exists_build_beside`), with one exception. The parser takes a list of siblings
without nodes for white space at the start of a line, so a tag that is the
second one on its line, after a set-delimiter tag, takes the white space
after it away if there is no node yet, and leaves it if there is one. The
templates that come to this are those that open blind (`opensBlind`).
-/

namespace Mustache

namespace Tree

open Compile (placeless placelessAll placelessInside placeless_eq)

/-! ## Templates that open blind -/

/-- A tag that may stand alone, a closing tag apart, and after it white
space that ends the line or the template. -/
def tagAndBlank (blocks : Bool) : List Token → Bool
  | tag :: blank :: more =>
    tag.kind.standsAlone blocks && tag.kind ≠ .closingTag && blank.isBlank &&
      (more.isEmpty || blank.endsLine)
  | _ => false

/-- **A template opens blind** if, after nothing but white space and
set-delimiter tags, a line begins with a set-delimiter tag right before
another tag that may stand alone, and only white space follows. The flag
says whether a line begins here. -/
def opensBlind (blocks : Bool) : Bool → List Token → Bool
  | _, [] => false
  | starts, t :: ts =>
    starts && t.kind = .delimiterTag && tagAndBlank blocks ts ||
      (t.isBlank || t.kind = .delimiterTag) && opensBlind blocks t.endsLine ts

/-! ## Two runs -/

section Runs

variable (source source' : String) (bytes : Nat) (root : Token)

/-- The nodes built so far, of one template each, are the same but for
their places and for a node in front of all others. -/
inductive Upon : List Token → List OpenTag → List Token → List OpenTag → Prop
  | outside {l l' : List Token} :
      l.map (placeless source) = l'.map (placeless source') → Upon l [] (l' ++ [root]) []
  | inside {l l' : List Token} {o o' : OpenTag} {os os' : List OpenTag} :
      l.map (placeless source) = l'.map (placeless source') → o.tag.Behind bytes o'.tag →
      Upon o.before os o'.before os' → Upon l (o :: os) l' (o' :: os')

/-- **Two runs side by side.** -/
structure Beside (s s' : State) : Prop where
  line : ∀ n, s'.line? = some (n + 1) ↔ s.line? = some n
  position : s'.position = s.position
  pragmas : s'.pragmas = s.pragmas
  nodes : Upon source source' bytes root s.siblings s.opened s'.siblings s'.opened

/-- Clearing does the same in both. -/
structure ClearedBeside (c c' : Cleared) : Prop where
  state : Beside source source' bytes root c.state c'.state
  dropsNext : c'.dropsNext = c.dropsNext
  lead : c'.lead?.map (·.text?) = c.lead?.map (·.text?)

end Runs

section Placeless

variable {source source' : String} {t u : Token}

theorem placelessAll_eq_map (ts : List Token) :
    placelessAll source ts = ts.map (placeless source) := by
  induction ts with
  | nil => rfl
  | cons t ts ih => rw [placelessAll, ih, List.map_cons]

theorem isBlank_of_placeless (h : placeless source t = placeless source' u) :
    u.isBlank = t.isBlank := by
  rw [placeless_eq, placeless_eq, Token.mk.injEq] at h
  obtain ⟨hkind, -, -, -, htext, -⟩ := h
  unfold Token.isBlank Token.text
  rw [← hkind] at htext ⊢
  by_cases hsection : t.kind = .sectionTag
  · rw [hsection]
    rfl
  · rw [if_neg hsection, if_neg hsection] at htext
    rw [htext]

theorem text_of_placeless (h : placeless source t = placeless source' u)
    (hblank : t.isBlank = true) : u.text? = t.text? := by
  rw [placeless_eq, placeless_eq, Token.mk.injEq] at h
  obtain ⟨hkind, -, -, -, htext, -⟩ := h
  rw [← hkind, isBlank_kind hblank, if_neg nofun, if_neg nofun] at htext
  exact htext.symm

/-- A token that encloses nothing, at another place, given another kind,
name and indent. -/
theorem placeless_reshaped {bytes : Nat} (h : t.Behind bytes u) (hnodes : t.nodes? = none)
    {kind : TokenKind} (hsection : kind ≠ .sectionTag) (name? indent? : Option String) :
    placeless source { t with kind := kind, name? := name?, indent? := indent? } =
      placeless source' { u with kind := kind, name? := name?, indent? := indent? } := by
  obtain ⟨line, offset?, rfl⟩ := h.moved.exists_eq
  rw [placeless_eq, placeless_eq]
  dsimp only
  rw [if_neg hsection, if_neg hsection, hnodes]
  rfl

theorem placeless_behind {bytes : Nat} (h : t.Behind bytes u) (hnodes : t.nodes? = none)
    (hsection : t.kind ≠ .sectionTag) : placeless source t = placeless source' u := by
  cases t
  obtain ⟨line, offset?, rfl⟩ := h.moved.exists_eq
  exact placeless_reshaped h hnodes hsection _ _

/-- A tag that is closed, with the nodes inside it: the text of a section is
the same, as its tags are as far down in both. -/
theorem placeless_close {bytes : Nat} {tag tag' : Token} {l l' : List Token}
    (hcut : ∀ start stop, Text.slice? (bytes + start) (bytes + stop) source'.toList =
      Text.slice? start stop source.toList)
    (htag : tag.Behind bytes tag') (htoken : t.Behind bytes u) (hkind : t.kind = .closingTag)
    (hsame : l.map (placeless source) = l'.map (placeless source')) :
    placeless source { tag with stop? := t.offset?, nodes? := some l.reverse } =
      placeless source' { tag' with stop? := u.offset?, nodes? := some l'.reverse } := by
  have hinside : placelessInside source (some l.reverse) =
      placelessInside source' (some l'.reverse) := by
    rw [placelessInside, placelessInside, placelessAll_eq_map, placelessAll_eq_map,
      List.map_reverse, List.map_reverse, hsame]
  have htext : tag.kind = .sectionTag →
      Compile.sectionSource source { tag with stop? := t.offset?, nodes? := some l.reverse } =
        Compile.sectionSource source'
          { tag' with stop? := u.offset?, nodes? := some l'.reverse } := by
    intro hsection
    obtain ⟨start, hstart, hstart'⟩ := htag.offset (.inl hsection)
    obtain ⟨stop, hstop, hstop'⟩ := htoken.offset (.inr hkind)
    unfold Compile.sectionSource
    simp only [hstart, hstart', hstop, hstop', Option.getD_some, hcut]
  obtain ⟨line, offset?, rfl⟩ := htag.moved.exists_eq
  rw [placeless_eq, placeless_eq]
  dsimp only at htext ⊢
  rw [hinside]
  by_cases hsection : tag.kind = .sectionTag
  · rw [if_pos hsection, if_pos hsection, htext hsection]
  · rw [if_neg hsection, if_neg hsection]

end Placeless

section Steps

variable {source source' : String} {bytes : Nat} {root t u : Token}
variable {s s' s₁ : State} {rest rest' : List Token}

theorem Upon.cons {l l' : List Token} {os os' : List OpenTag}
    (h : Upon source source' bytes root l os l' os')
    (hnode : placeless source t = placeless source' u) :
    Upon source source' bytes root (t :: l) os (u :: l') os' := by
  cases h with
  | outside hsame =>
    rw [← List.cons_append]
    exact .outside (by rw [List.map_cons, List.map_cons, hnode, hsame])
  | inside hsame htag hbefore =>
    exact .inside (by rw [List.map_cons, List.map_cons, hnode, hsame]) htag hbefore

/-- The last siblings of both are the same, or there are none, or the node
in front of everything is the last one. -/
theorem Upon.last {l l' : List Token} {os os' : List OpenTag}
    (h : Upon source source' bytes root l os l' os') :
    l = [] ∧ l' = [] ∨ (os = [] ∧ l = [] ∧ l' = [root]) ∨
      ∃ t before u before', l = t :: before ∧ l' = u :: before' ∧
        placeless source t = placeless source' u ∧
        Upon source source' bytes root before os before' os' := by
  cases h with
  | @outside _ l' hsame =>
    cases l with
    | nil =>
      obtain rfl := List.map_eq_nil_iff.1 hsame.symm
      exact .inr (.inl ⟨rfl, rfl, rfl⟩)
    | cons t before =>
      obtain ⟨u, before', rfl, hnode, hbefore⟩ := List.map_eq_cons_iff.1 hsame.symm
      exact .inr (.inr ⟨t, before, u, before' ++ [root], rfl, rfl, hnode.symm,
        .outside hbefore.symm⟩)
  | inside hsame htag hmore =>
    cases l with
    | nil =>
      obtain rfl := List.map_eq_nil_iff.1 hsame.symm
      exact .inl ⟨rfl, rfl⟩
    | cons t before =>
      obtain ⟨u, before', rfl, hnode, hbefore⟩ := List.map_eq_cons_iff.1 hsame.symm
      exact .inr (.inr ⟨t, before, u, before', rfl, rfl, hnode.symm,
        .inside hbefore.symm htag hmore⟩)

theorem Beside.add (h : Beside source source' bytes root s s')
    (hnode : placeless source t = placeless source' u) :
    Beside source source' bytes root (s.add t) (s'.add u) :=
  ⟨h.line, h.position, h.pragmas, h.nodes.cons hnode⟩

theorem Beside.enter (h : Beside source source' bytes root s s') (htag : t.Behind bytes u) :
    Beside source source' bytes root (s.enter t) (s'.enter u) :=
  ⟨h.line, h.position, h.pragmas, .inside rfl htag h.nodes⟩

theorem Beside.countLine (h : Beside source source' bytes root s s') (n : Nat) :
    Beside source source' bytes root (s.countLine n) (s'.countLine (n + 1)) := by
  by_cases hsame : s.line? = some n
  · have hsame' := (h.line n).2 hsame
    rw [State.countLine, State.countLine, if_pos hsame, if_pos hsame']
    exact ⟨h.line, congrArg (· + 1) h.position, h.pragmas, h.nodes⟩
  · have hsame' := mt (h.line n).1 hsame
    rw [State.countLine, State.countLine, if_neg hsame, if_neg hsame']
    refine ⟨fun m => ?_, rfl, h.pragmas, h.nodes⟩
    simp

/-- Both are directly inside a parent tag, or neither is. -/
theorem Beside.inParent (h : Beside source source' bytes root s s') :
    (s'.enclosing?.any fun p => p.kind = .parentTag) =
      s.enclosing?.any fun p => p.kind = .parentTag := by
  obtain ⟨line?, position, pragmas, siblings, opened⟩ := s
  obtain ⟨line?', position', pragmas', siblings', opened'⟩ := s'
  have hnodes := h.nodes
  unfold State.enclosing?
  cases hnodes with
  | outside _ => rfl
  | inside _ htag _ => simp [htag.moved.kind]

theorem Beside.checkOutsideParent (h : Beside source source' bytes root s s')
    (hcheck : checkOutsideParent s t = .ok ()) : Tree.checkOutsideParent s' u = .ok () := by
  unfold Tree.checkOutsideParent at hcheck ⊢
  rw [h.inParent]
  split at hcheck
  · cases hcheck
  · next hnot => rw [if_neg hnot]

/-! ### Clearing -/

theorem follow?_behind {n : Nat} (h : List.Forall₂ (Token.Behind bytes) rest rest') :
    follow? (some (n + 1)) rest' = follow? (some n) rest := by
  cases h with
  | nil => rfl
  | cons hnext hmore =>
    have hempty := hmore.length_eq
    rw [follow?, follow?, hnext.line, hnext.moved.isBlank, hnext.moved.endsLine]
    cases hmore <;> simp

/-- **Clearing does the same in both**, unless nothing stands in front of
everything in one of them, and this is taken for white space. -/
theorem clearOn_beside (h : Beside source source' bytes root s s') (hroot : root.isBlank = false)
    {follow : Option Bool}
    (hsight : s.opened = [] → s.siblings = [] → s.position = 1 → follow ≠ some true) :
    ClearedBeside source source' bytes root (clearOn s follow) (clearOn s' follow) := by
  obtain ⟨line?, position, pragmas, siblings, opened⟩ := s
  obtain ⟨line?', position', pragmas', siblings', opened'⟩ := s'
  obtain ⟨hline, hposition, hpragmas, hnodes⟩ := h
  dsimp only at hline hposition hpragmas hnodes hsight
  subst hposition hpragmas
  cases follow with
  | none => exact ⟨⟨hline, rfl, rfl, hnodes⟩, rfl, rfl⟩
  | some drops =>
    rcases position' with _ | _ | position'
    · exact ⟨⟨hline, rfl, rfl, hnodes⟩, rfl, rfl⟩
    · -- the second token of its line looks back at the last sibling
      rcases hnodes.last with ⟨rfl, rfl⟩ | ⟨rfl, rfl, rfl⟩ |
        ⟨lead, before, lead', before', rfl, rfl, hlead, hbefore⟩
      · exact ⟨⟨hline, rfl, rfl, hnodes⟩, rfl, rfl⟩
      · have hstays : drops = false := by simpa using hsight rfl rfl rfl
        subst hstays
        simp only [clearOn, hroot, Bool.false_eq_true, if_false]
        exact ⟨⟨hline, rfl, rfl, hnodes⟩, rfl, rfl⟩
      · have hblank := isBlank_of_placeless hlead
        cases hisBlank : lead.isBlank with
        | false =>
          simp only [clearOn, hblank, hisBlank, Bool.false_eq_true, if_false]
          exact ⟨⟨hline, rfl, rfl, hnodes⟩, rfl, rfl⟩
        | true =>
          simp only [clearOn, hblank, hisBlank, if_true]
          exact ⟨⟨hline, rfl, rfl, hbefore⟩, rfl, congrArg some (text_of_placeless hlead hisBlank)⟩
    · exact ⟨⟨hline, rfl, rfl, hnodes⟩, rfl, rfl⟩

/-! ### Placing -/

theorem ClearedBeside.close
    (hcleared : ClearedBeside source source' bytes root (clear s rest) (clear s' rest'))
    (hcut : ∀ start stop, Text.slice? (bytes + start) (bytes + stop) source'.toList =
      Text.slice? start stop source.toList)
    (htoken : t.Behind bytes u) (hkind : t.kind = .closingTag) {o : OpenTag}
    {opened : List OpenTag} (hopened : s.opened = o :: opened) (hname : t.name = o.tag.name)
    (hdynamic : t.dynamic = o.tag.dynamic) :
    ∃ s₁', Placing s' u rest' s₁' (clear s rest).dropsNext ∧
      Beside source source' bytes root
        { (clear s rest).state with
          siblings := { o.tag with
            stop? := t.offset?
            nodes? := some (clear s rest).state.siblings.reverse } :: o.before
          opened := opened } s₁' := by
  obtain ⟨hstate, hdrops, -⟩ := hcleared
  have hnodes := hstate.nodes
  rw [clear_opened, clear_opened, hopened] at hnodes
  generalize hleft : (clear s rest).state.siblings = siblings at hnodes
  generalize hleft' : (clear s' rest').state.siblings = siblings' at hnodes
  generalize hopened' : s'.opened = opened' at hnodes
  cases hnodes with
  | inside hsame htag hbefore =>
    subst hleft hleft'
    rw [← hdrops]
    refine ⟨_, .close (htoken.moved.kind.trans hkind) hopened' ?_ ?_, hstate.line, hstate.position,
      hstate.pragmas, hbefore.cons (placeless_close hcut htag htoken hkind hsame)⟩
    · rw [htoken.moved.name, htag.moved.name, hname]
    · rw [htoken.moved.dynamic, htag.moved.dynamic, hdynamic]

/-- **A token is placed alike in both.** -/
theorem Beside.place (h : Beside source source' bytes root s s')
    (hcut : ∀ start stop, Text.slice? (bytes + start) (bytes + stop) source'.toList =
      Text.slice? start stop source.toList)
    (hcleared : t.kind.standsAlone (s.pragmas.has .blocks) = true →
      ClearedBeside source source' bytes root (clear s rest) (clear s' rest'))
    (htoken : t.Behind bytes u) (hnodes : t.nodes? = none) (hplain : t.kind ≠ .pragma)
    {drops : Bool} (hplace : place s t rest = .ok (s₁, drops)) :
    ∃ s₁', Tree.place s' u rest' = .ok (s₁', drops) ∧
      Beside source source' bytes root s₁ s₁' := by
  have hsame : u.kind = t.kind := htoken.moved.kind
  have hleaf (hsection : t.kind ≠ .sectionTag) : placeless source t = placeless source' u :=
    placeless_behind htoken hnodes hsection
  simp only [place_eq_ok_iff] at hplace ⊢
  cases hplace with
  | pass hkind hcheck =>
    obtain ⟨hstate, hdrops, -⟩ := hcleared (by rw [hkind]; rfl)
    rw [← hdrops]
    exact ⟨_, .pass (hsame.trans hkind) (h.checkOutsideParent hcheck), hstate⟩
  | enter hkind hcheck =>
    have halone : t.kind.standsAlone (s.pragmas.has .blocks) = true := by
      rcases hkind with hkind | hkind <;> rw [hkind] <;> rfl
    obtain ⟨hstate, hdrops, -⟩ := hcleared halone
    rw [← hdrops]
    exact ⟨_, .enter (hsame ▸ hkind) (h.checkOutsideParent hcheck), hstate.enter htoken⟩
  | enterParent hkind hcheck =>
    exact ⟨_, .enterParent (hsame.trans hkind) (h.checkOutsideParent hcheck), h.enter htoken⟩
  | enterBlock hkind hblocks =>
    obtain ⟨hstate, hdrops, -⟩ := hcleared (by rw [hkind]; exact hblocks)
    rw [← hdrops]
    refine ⟨_, .enterBlock (hsame.trans hkind) (h.pragmas ▸ hblocks), ?_⟩
    rw [h.inParent]
    refine hstate.enter ?_
    split
    · refine ⟨?_, htoken.line, nofun⟩
      obtain ⟨line, offset?, rfl⟩ := htoken.moved.exists_eq
      rfl
    · exact htoken
  | close hkind hopened hname hdynamic =>
    exact (hcleared (by rw [hkind]; rfl)).close hcut htoken hkind hopened hname hdynamic
  | addPartial hkind hcheck =>
    obtain ⟨hstate, hdrops, hlead⟩ := hcleared (by rw [hkind]; rfl)
    rw [← hdrops]
    refine ⟨_, .addPartial (hsame.trans hkind) (h.checkOutsideParent hcheck), hstate.add ?_⟩
    -- the white space before it is the same, and so is the indent
    cases hbefore : (clear s rest).lead? with
    | none =>
      rw [hbefore, Option.map_none, Option.map_eq_none_iff] at hlead
      rw [hlead]
      exact hleaf (by rw [hkind]; nofun)
    | some lead =>
      rw [hbefore, Option.map_some, Option.map_eq_some_iff] at hlead
      obtain ⟨lead', hlead', htext⟩ := hlead
      rw [hlead', indented, indented, htext, htoken.moved.name?, hsame, hkind]
      exact placeless_reshaped htoken hnodes (by decide) t.name? lead.text?
  | addPragma hkind => exact absurd hkind hplain
  | addComment hkind =>
    obtain ⟨hstate, hdrops, -⟩ := hcleared (by rw [hkind]; rfl)
    rw [← hdrops]
    exact ⟨_, .addComment (hsame.trans hkind), hstate.add (hleaf (by rw [hkind]; nofun))⟩
  | addSigil hkind hblocks =>
    refine ⟨_, .addSigil (hsame.trans hkind) (h.pragmas ▸ hblocks), h.add ?_⟩
    have hindent : u.indent? = t.indent? := by
      rw [htoken.moved]
    rw [htoken.moved.name, hindent]
    exact placeless_reshaped htoken hnodes (by decide) _ t.indent?
  | addLeaf hkind =>
    exact ⟨_, .addLeaf (hsame ▸ hkind), h.add (hleaf fun heq => by simp [heq] at hkind)⟩

/-- A name is read alike in both. -/
theorem exists_readName_behind {pragmas : PragmaSet} {v : Token} (htoken : t.Behind bytes u)
    (hread : readName pragmas t = .ok v) :
    ∃ w, readName pragmas u = .ok w ∧ v.Behind bytes w := by
  obtain ⟨w, hread', hmoved⟩ := readName_moved (fun _ _ => rfl) htoken.moved hread
  have hv := (sameButName_readName hread).reshaped
  have hkind := (sameButName_readName hread).kind
  have hw := (sameButName_readName hread').reshaped
  refine ⟨w, hread', hmoved, ?_, fun h => ?_⟩
  · rw [hv.line, hw.line, htoken.line]
  · rw [hkind] at h
    rw [hv.offset, hw.offset]
    exact htoken.offset h

/-- **A step of both.** -/
theorem Beside.step (h : Beside source source' bytes root s s')
    (hcut : ∀ start stop, Text.slice? (bytes + start) (bytes + stop) source'.toList =
      Text.slice? start stop source.toList)
    (hroot : root.isBlank = false) (htoken : t.Behind bytes u) (hnodes : t.nodes? = none)
    (hplain : t.kind ≠ .pragma) (hrest : List.Forall₂ (Token.Behind bytes) rest rest')
    (hsight : t.kind.standsAlone (s.pragmas.has .blocks) = true → s.opened = [] →
      s.siblings = [] → (s.countLine t.line).position = 1 → follow? (some t.line) rest ≠ some true)
    {drops : Bool} (hstep : step s t rest = .ok (s₁, drops)) :
    ∃ s₁', Tree.step s' u rest' = .ok (s₁', drops) ∧
      Beside source source' bytes root s₁ s₁' := by
  have hcounted := h.countLine t.line
  unfold Tree.step at hstep ⊢
  obtain ⟨v, hread, hplace⟩ := exists_of_bind_eq_ok hstep
  obtain ⟨w, hread', hv⟩ := exists_readName_behind htoken hread
  have hname := sameButName_readName hread
  rw [← htoken.line] at hcounted
  dsimp only
  rw [hcounted.pragmas, hread']
  refine hcounted.place hcut (fun halone => ?_) hv (hname.nodes.trans hnodes)
    (hname.kind.symm ▸ hplain) hplace
  rw [hname.kind, countLine_pragmas] at halone
  have hfollow : follow? (s'.countLine u.line).line? rest' =
      follow? (s.countLine t.line).line? rest := by
    rw [countLine_line, countLine_line, htoken.line]
    exact follow?_behind hrest
  rw [clear_eq_clearOn, clear_eq_clearOn, hfollow]
  refine clearOn_beside hcounted hroot fun hopened hsiblings hposition => ?_
  rw [countLine_opened] at hopened
  rw [countLine_siblings] at hsiblings
  rw [countLine_line]
  exact hsight halone hopened hsiblings hposition

end Steps

/-! ## Where both see the same -/

section Sight

variable {blocks : Bool} {n : Nat} {s s₁ : State} {t : Token} {ts rest : List Token}

/-- **What is ahead of the parser is not read blind.** So far there is
nothing but white space, or nothing at all after a first token of a line;
the tokens to come go on at the given line. -/
structure Sighted (blocks : Bool) (n : Nat) (s : State) (ts : List Token) : Prop where
  lines : OnLines n ts
  tags : s.OpenedTags
  onward : s.opened = [] → (∀ t ∈ s.siblings, t.isBlank = true) →
    opensBlind blocks (s.line? ≠ some n) ts = false
  second : s.opened = [] → s.siblings = [] → s.line? = some n → s.position = 0 →
    tagAndBlank blocks ts = false

theorem follow?_eq_some_true (h : follow? (some n) rest = some true) :
    ∃ blank more, rest = blank :: more ∧ blank.line = n ∧ blank.isBlank = true ∧
      (more.isEmpty || blank.endsLine) = true := by
  unfold follow? at h
  split at h
  · cases h
  · next blank more =>
    split at h
    · cases h
    · next hline =>
      split at h
      · next hblank =>
        obtain ⟨hblank, hends⟩ := Bool.and_eq_true_iff.1 hblank
        exact ⟨blank, more, rfl, (by simpa using hline : n = blank.line).symm, hblank, hends⟩
      · cases h

theorem of_clearOn_drops {follow : Option Bool} (h : (clearOn s follow).dropsNext = true) :
    follow = some true := by
  unfold clearOn at h
  split at h
  · cases h
  · split at h
    · exact congrArg some h
    · exact congrArg some h
    · split at h
      · exact congrArg some h
      · cases h
    · cases h

/-- A closing tag is taken only where a tag is open. -/
theorem kind_ne_closing_of_step {drops : Bool} (h : step s t rest = .ok (s₁, drops))
    (hopened : s.opened = []) : t.kind ≠ .closingTag := by
  intro hkind
  obtain ⟨l, -, hturn⟩ := turn_of_step h
  rw [hopened] at hturn
  generalize s₁.siblings = siblings, s₁.opened = opened at hturn
  cases hturn with
  | pass hpass => rw [hkind] at hpass; cases hpass
  | leaf hleaf =>
    rcases hleaf.kind with ⟨-, hother⟩ | ⟨hother, -⟩
    · rw [hkind] at hother
      exact absurd hother (by decide)
    · rw [hkind] at hother
      cases hother
  | enter htag =>
    rcases htag.kind with ⟨-, hother⟩ | ⟨hother, -⟩
    · rw [hkind] at hother
      exact absurd hother (by decide)
    · rw [hkind] at hother
      cases hother

/-- The second token of a line that has nothing before it is not read
blind. -/
theorem Sighted.sight (h : Sighted blocks n s (t :: rest)) {drops : Bool}
    (hstep : step s t rest = .ok (s₁, drops)) (halone : t.kind.standsAlone blocks = true)
    (hopened : s.opened = []) (hsiblings : s.siblings = [])
    (hposition : (s.countLine t.line).position = 1) :
    follow? (some t.line) rest ≠ some true := by
  obtain ⟨-, hline, -⟩ := h.lines
  have hclosing := kind_ne_closing_of_step hstep hopened
  have hsecond : s.line? = some n ∧ s.position = 0 := by
    unfold State.countLine at hposition
    rw [hline] at hposition
    split at hposition
    · next hsame => exact ⟨hsame, Nat.succ.inj hposition⟩
    · cases hposition
  intro hfollow
  obtain ⟨blank, more, rfl, -, hblank, hends⟩ := follow?_eq_some_true hfollow
  have hnot := h.second hopened hsiblings hsecond.1 hsecond.2
  rw [tagAndBlank, halone, hblank, hends, decide_eq_true hclosing] at hnot
  cases hnot

/-- If there is nothing but white space after a step, there was nothing else
before it, and its token is white space, or sets delimiters and leaves no
node. -/
theorem blank_of_step {drops : Bool} (h : step s t rest = .ok (s₁, drops)) (hs : s.OpenedTags)
    (hopened : s₁.opened = []) (hblank : ∀ t ∈ s₁.siblings, t.isBlank = true) :
    s.opened = [] ∧ (∀ t ∈ s.siblings, t.isBlank = true) ∧
      (t.isBlank = true ∧ s₁.siblings ≠ [] ∨ t.kind = .delimiterTag) := by
  obtain ⟨l, hleft, hturn⟩ := turn_of_step h
  have hsiblings (hl : ∀ t ∈ l, t.isBlank = true) : ∀ t ∈ s.siblings, t.isBlank = true := by
    rcases hleft with rfl | ⟨lead, hlead, hcons⟩
    · exact hl
    · rw [hcons]
      exact List.forall_mem_cons.2 ⟨hlead, hl⟩
  rw [hopened] at hturn
  generalize s₁.siblings = siblings at hturn hblank ⊢
  generalize hbefore : s.opened = opened at hturn
  cases hturn with
  | pass hkind => exact ⟨rfl, hsiblings hblank, .inr hkind⟩
  | leaf hleaf =>
    obtain ⟨hnode, hl⟩ := List.forall_mem_cons.1 hblank
    refine ⟨rfl, hsiblings hl, .inl ⟨?_, nofun⟩⟩
    rcases hleaf.kind with ⟨hsame, -⟩ | ⟨-, hkind⟩
    · unfold Token.isBlank Token.text at hnode ⊢
      rw [hsame, hleaf.shape.text] at hnode
      exact hnode
    · have hescaped := isBlank_kind hnode
      rw [hkind] at hescaped
      cases hescaped
  | @close o _ hkind =>
    obtain ⟨hnode, -⟩ := List.forall_mem_cons.1 hblank
    have htag := hs o (by rw [hbefore]; exact List.mem_cons_self)
    exact absurd (isBlank_kind hnode) htag.1

/-- What follows white space or a set-delimiter tag does not open blind
either. -/
theorem opensBlind_tail {starts : Bool} (h : opensBlind blocks starts (t :: ts) = false)
    (ht : t.isBlank = true ∨ t.kind = .delimiterTag) :
    opensBlind blocks t.endsLine ts = false ∧
      (starts = true → t.kind = .delimiterTag → tagAndBlank blocks ts = false) := by
  rw [opensBlind, Bool.or_eq_false_iff] at h
  obtain ⟨hhere, hmore⟩ := h
  have hinvisible : (t.isBlank || decide (t.kind = .delimiterTag)) = true := by simpa using ht
  rw [hinvisible, Bool.true_and] at hmore
  refine ⟨hmore, fun hstarts hkind => ?_⟩
  rw [hstarts, decide_eq_true hkind, Bool.true_and, Bool.true_and] at hhere
  exact hhere

/-- The tokens that a step leaves, and the line that they go on at. -/
theorem exists_lines_after (hlines : OnLines n (t :: rest)) (hplain : t.kind ≠ .pragma)
    (hs : s.OpenedTags) {drops : Bool} (hstep : step s t rest = .ok (s₁, drops)) :
    ∃ m, OnLines m (if drops then rest.tail else rest) ∧
      (opensBlind blocks t.endsLine rest = false →
        opensBlind blocks (some n ≠ some m) (if drops then rest.tail else rest) = false) ∧
      (m = n → tagAndBlank blocks rest = false →
        tagAndBlank blocks (if drops then rest.tail else rest) = false) := by
  obtain ⟨hfresh, hline, hrest⟩ := hlines
  have hdrops := (stepped_of_step hstep hfresh hplain hs).drops_eq
  have hnext (b : Token) : decide (some n ≠ some (if b.endsLine then n + 1 else n)) =
      b.endsLine := by
    cases b.endsLine <;> simp
  cases drops with
  | false =>
    refine ⟨_, hrest, fun h => ?_, fun _ h => h⟩
    rw [hnext]
    exact h
  | true =>
    -- a tag has taken the white space after it away
    unfold clearedAt at hdrops
    split at hdrops
    · next halone =>
      rw [clear_eq_clearOn] at hdrops
      have hfollow := of_clearOn_drops hdrops.symm
      rw [countLine_line, hline] at hfollow
      obtain ⟨blank, more, rfl, -, hblank, hends⟩ := follow?_eq_some_true hfollow
      rw [hfresh.endsLine_of_tag (kind_ne_of_standsAlone halone)] at hrest ⊢
      obtain ⟨-, -, hmore⟩ := hrest
      rw [if_neg Bool.false_ne_true] at hmore
      refine ⟨_, hmore, fun h => ?_, fun hsame _ => ?_⟩
      · rw [hnext]
        exact (opensBlind_tail h (.inl hblank)).1
      · have hnot : blank.endsLine = false := by
          cases hb : blank.endsLine with
          | false => rfl
          | true => simp [hb] at hsame
        rw [hnot, Bool.or_false, List.isEmpty_iff] at hends
        rw [hends]
        rfl
    · cases hdrops

/-- **What a step leaves ahead is not read blind** if the rest was not. -/
theorem Sighted.step (h : Sighted blocks n s (t :: rest)) (hplain : t.kind ≠ .pragma)
    {drops : Bool} (hstep : step s t rest = .ok (s₁, drops)) :
    ∃ m, Sighted blocks m s₁ (if drops then rest.tail else rest) := by
  obtain ⟨hfresh, hline, -⟩ := h.lines
  have hstepped := stepped_of_step hstep hfresh hplain h.tags
  have hline₁ : s₁.line? = some n := by rw [hstepped.line, hline]
  obtain ⟨m, hlines, honward, hsecond⟩ := exists_lines_after h.lines hplain h.tags hstep
  refine ⟨m, hlines, hstepped.opened, fun hopened hblank => ?_,
    fun hopened hsiblings hsame hposition => ?_⟩
  · obtain ⟨hopened, hblank, ht⟩ := blank_of_step hstep h.tags hopened hblank
    rw [hline₁]
    exact honward (opensBlind_tail (h.onward hopened hblank) (ht.imp_left And.left)).1
  · have hnothing : ∀ t ∈ s₁.siblings, t.isBlank = true := by
      rw [hsiblings]
      exact nofun
    obtain ⟨hopened, hblank, ht⟩ := blank_of_step hstep h.tags hopened hnothing
    have hkind : t.kind = .delimiterTag := ht.resolve_left fun ht => ht.2 hsiblings
    -- the set-delimiter tag is the first token of its line
    have hstarts : s.line? ≠ some n := by
      intro hold
      rw [hstepped.position, State.countLine, hline, if_pos hold] at hposition
      cases hposition
    refine hsecond (Option.some.inj (hsame.symm.trans hline₁)) ?_
    exact (opensBlind_tail (h.onward hopened hblank) (.inr hkind)).2 (decide_eq_true hstarts) hkind

end Sight

/-! ## The whole template -/

section Whole

variable {source source' : String} {bytes n : Nat} {root : Token} {s s' s₁ : State}
variable {ts us : List Token}

/-- **Both runs build the same nodes**, if the template does not open
blind. -/
theorem exists_build_beside
    (hcut : ∀ start stop, Text.slice? (bytes + start) (bytes + stop) source'.toList =
      Text.slice? start stop source.toList)
    (hroot : root.isBlank = false) (hts : List.Forall₂ (Token.Behind bytes) ts us)
    (hplain : ∀ t ∈ ts, t.kind ≠ .pragma) (h : Beside source source' bytes root s s')
    (hsighted : Sighted (s.pragmas.has .blocks) n s ts) (hbuild : build s ts = .ok s₁) :
    ∃ s₁', build s' us = .ok s₁' ∧ Beside source source' bytes root s₁ s₁' := by
  induction s, ts using build.induct generalizing s' us n with
  | case1 s =>
    cases hts
    rw [build] at hbuild ⊢
    cases hbuild
    exact ⟨s', rfl, h⟩
  | case2 s t rest s₂ drops hstep ih =>
    rw [build, hstep] at hbuild
    cases hts with
    | @cons _ u _ rest' htoken hrest =>
      obtain ⟨ht, hplain⟩ := List.forall_mem_cons.1 hplain
      have hfresh := hsighted.lines.1
      obtain ⟨s₂', hstep', hnext⟩ := h.step hcut hroot htoken hfresh.nodes ht hrest
        (hsighted.sight hstep) hstep
      have hpragmas := (stepped_of_step hstep hfresh ht hsighted.tags).pragmas
      obtain ⟨m, hsighted⟩ := hsighted.step ht hstep
      -- the same next token goes with this one
      have hafter : List.Forall₂ (Token.Behind bytes) (if drops then rest.tail else rest)
          (if drops then rest'.tail else rest') := by
        cases drops with
        | false => exact hrest
        | true =>
          cases hrest with
          | nil => exact .nil
          | cons _ hmore => exact hmore
      obtain ⟨s₁', hbuild', hbeside⟩ := ih hafter (fun v hv => hplain v (mem_of_mem_after hv))
        hnext (hpragmas ▸ hsighted) hbuild
      refine ⟨s₁', ?_, hbeside⟩
      rw [build, hstep']
      exact hbuild'
  | case3 s t rest e hstep =>
    rw [build, hstep] at hbuild
    cases hbuild

end Whole

end Tree

end Mustache
