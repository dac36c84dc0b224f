import Mustache.Proofs.Trim
/-!
# Mustache — every node of a tree

The parser makes the nodes of a tree out of the tokens of the template and
changes little about them: names, the kind of some blocks, and what it
adds. So what holds of every token, and does not depend on these, holds of
every node, however deep it stands (`everywhere_ofTokens`).

One case of it is proved here: the delimiters that tags are written with
are ones that a text of two words names, if the template starts with such
(`Tree.accepted_nodes`).

Where a single node is meant that stands somewhere in the tree, `Within` says
that it does.
-/

namespace Mustache

namespace Token

mutual

/-- It holds of a token and of every node inside it. -/
def Everywhere (P : Token → Prop) : Token → Prop
  | t@⟨_, _, _, _, _, _, _, _, _, _, nodes?⟩ => P t ∧ EverywhereInside P nodes?

/-- It holds of every node inside a tag. -/
def EverywhereInside (P : Token → Prop) : Option (List Token) → Prop
  | none => True
  | some ts => EverywhereIn P ts

/-- It holds of some nodes and of every node inside them. -/
def EverywhereIn (P : Token → Prop) : List Token → Prop
  | [] => True
  | t :: ts => Everywhere P t ∧ EverywhereIn P ts

end

variable {P : Token → Prop}

theorem everywhereIn_iff {ts : List Token} : EverywhereIn P ts ↔ ∀ t ∈ ts, Everywhere P t := by
  induction ts with
  | nil => simp [EverywhereIn]
  | cons t ts ih => simp [EverywhereIn, ih]

theorem everywhere_iff {t : Token} : Everywhere P t ↔ P t ∧ EverywhereIn P t.nodes := by
  obtain ⟨_, _, _, _, _, _, _, _, _, _, nodes?⟩ := t
  cases nodes? <;> simp [Everywhere, EverywhereInside, EverywhereIn, nodes]

mutual

/-- What follows from what holds of a token and inside it holds there too. -/
theorem Everywhere.mono {Q : Token → Prop} (h : ∀ t, P t → Q t) :
    ∀ t, Everywhere P t → Everywhere Q t
  | ⟨_, _, _, _, _, _, _, _, _, _, nodes?⟩, ht => ⟨h _ ht.1, EverywhereInside.mono h nodes? ht.2⟩

theorem EverywhereInside.mono {Q : Token → Prop} (h : ∀ t, P t → Q t) :
    ∀ nodes?, EverywhereInside P nodes? → EverywhereInside Q nodes?
  | none, _ => trivial
  | some ts, hts => EverywhereIn.mono h ts hts

theorem EverywhereIn.mono {Q : Token → Prop} (h : ∀ t, P t → Q t) :
    ∀ ts, EverywhereIn P ts → EverywhereIn Q ts
  | [], _ => trivial
  | t :: ts, hts => ⟨Everywhere.mono h t hts.1, EverywhereIn.mono h ts hts.2⟩

end

theorem Everywhere.self {t : Token} (h : Everywhere P t) : P t := (everywhere_iff.1 h).1

theorem Everywhere.nodes {t : Token} (h : Everywhere P t) : EverywhereIn P t.nodes :=
  (everywhere_iff.1 h).2

/-! ## Nodes at any depth -/

/-- **A node stands among some nodes**, at any depth. -/
inductive Within (u : Token) : List Token → Prop
  | here {nodes : List Token} : u ∈ nodes → Within u nodes
  | inside {t : Token} {nodes : List Token} : t ∈ nodes → Within u t.nodes → Within u nodes

namespace Within

variable {t u : Token} {nodes more : List Token}

theorem mono (h : Within u nodes) (hsub : nodes ⊆ more) : Within u more := by
  cases h with
  | here hu => exact .here (hsub hu)
  | inside ht hu => exact .inside (hsub ht) hu

theorem not_nil : ¬ Within u [] := by
  intro h
  cases h <;> contradiction

theorem cons_iff : Within u (t :: nodes) ↔ u = t ∨ Within u t.nodes ∨ Within u nodes := by
  constructor
  · intro h
    cases h with
    | here hu => exact (List.mem_cons.1 hu).imp_right (.inr ∘ .here)
    | inside hv hu =>
      rcases List.mem_cons.1 hv with rfl | hv
      · exact .inr (.inl hu)
      · exact .inr (.inr (.inside hv hu))
  · rintro (rfl | hu | hu)
    · exact .here List.mem_cons_self
    · exact .inside List.mem_cons_self hu
    · exact hu.mono (List.subset_cons_self t nodes)

theorem append_iff : Within u (nodes ++ more) ↔ Within u nodes ∨ Within u more := by
  induction nodes with
  | nil => simp [not_nil]
  | cons t nodes ih => rw [List.cons_append, cons_iff, cons_iff, ih, or_assoc, or_assoc]

theorem trans (h : Within u t.nodes) (ht : Within t nodes) : Within u nodes := by
  induction ht with
  | here ht => exact .inside ht h
  | inside hv _ ih => exact .inside hv ih

/-- What holds of every node holds of each, and inside it. -/
theorem everywhere_of (h : Within u nodes) (hall : EverywhereIn P nodes) : Everywhere P u := by
  induction h with
  | here hu => exact everywhereIn_iff.1 hall u hu
  | inside ht _ ih => exact ih (everywhereIn_iff.1 hall _ ht).nodes

theorem of_everywhereIn (h : Within u nodes) (hall : EverywhereIn P nodes) : P u :=
  (h.everywhere_of hall).self

end Within

mutual

theorem Everywhere.of_within : ∀ t : Token, P t → (∀ u, Within u t.nodes → P u) → Everywhere P t
  | ⟨_, _, _, _, _, _, _, _, _, _, nodes?⟩, ht, h => ⟨ht, EverywhereInside.of_within nodes? h⟩

theorem EverywhereInside.of_within : ∀ nodes? : Option (List Token),
    (∀ u, Within u (nodes?.getD []) → P u) → EverywhereInside P nodes?
  | none, _ => trivial
  | some ts, h => EverywhereIn.of_within ts h

/-- What holds of each node holds of every one. -/
theorem EverywhereIn.of_within : ∀ ts : List Token, (∀ u, Within u ts → P u) → EverywhereIn P ts
  | [], _ => trivial
  | t :: ts, h =>
    ⟨Everywhere.of_within t (h t (Within.cons_iff.2 (.inl rfl)))
      fun u hu => h u (Within.cons_iff.2 (.inr (.inl hu))),
      EverywhereIn.of_within ts fun u hu => h u (Within.cons_iff.2 (.inr (.inr hu)))⟩

end

/-- Each node stands among them. -/
theorem EverywhereIn.within (nodes : List Token) : EverywhereIn (Within · nodes) nodes :=
  .of_within nodes fun _ hu => hu

/-! ## What the parser makes of a token -/

/-- What the parser may make of a token: it keeps the place, the text and
the delimiters, and the kind unless that is a block. -/
structure Reshaped (t u : Token) : Prop where
  kind : u.kind = t.kind ∨ t.kind = .blockVar ∧ u.kind ≠ .pragma
  line : u.line = t.line
  offset : u.offset? = t.offset?
  text : u.text? = t.text?
  delimiters : u.delimiters? = t.delimiters?

theorem Reshaped.indented {t u : Token} (h : Reshaped t u) (lead? : Option Token) :
    Reshaped t (Tree.indented u lead?) := by
  cases lead? with
  | none => exact h
  | some lead => exact ⟨h.kind, h.line, h.offset, h.text, h.delimiters⟩

/-- What is made of a token is no pragma, unless the token is one. -/
theorem Reshaped.pragma_iff {t u : Token} (h : Reshaped t u) :
    u.kind = .pragma ↔ t.kind = .pragma := by
  rcases h.kind with heq | ⟨hblock, hpragma⟩
  · rw [heq]
  · rw [hblock]
    exact ⟨fun h => absurd h hpragma, nofun⟩

end Token

namespace Tree

open Token (Everywhere EverywhereIn EverywhereInside Reshaped)

/-! ## What a step does to the nodes -/

/-- **A move**: what a token does to the siblings and to the open tags. It
leaves no node, or one of its own shape; or it opens a tag, or makes a
node of the innermost open one. -/
inductive Moves (t : Token) :
    List Token → List OpenTag → List Token → List OpenTag → Prop
  | stay {l : List Token} {os : List OpenTag} : Moves t l os l os
  | add {l : List Token} {os : List OpenTag} {node : Token} :
      Reshaped t node → node.nodes? = t.nodes? → Moves t l os (node :: l) os
  | enter {l : List Token} {os : List OpenTag} {tag : Token} :
      Reshaped t tag → t.kind ≠ .pragma → Moves t l os [] (⟨tag, l⟩ :: os)
  | close {l : List Token} {o : OpenTag} {os : List OpenTag} {node : Token} :
      Reshaped o.tag node → node.nodes? = some l.reverse → t.kind ≠ .pragma →
      Moves t l (o :: os) (node :: o.before) os

/-- What is left of the siblings where white space before a tag may have been
taken away. -/
def LeftOf (l siblings : List Token) : Prop :=
  l = siblings ∨ ∃ lead, lead.isBlank = true ∧ siblings = lead :: l

theorem LeftOf.refl (l : List Token) : LeftOf l l := .inl rfl

/-- What holds of all siblings holds of those that are left. -/
theorem LeftOf.forall_mem {Q : Token → Prop} {l siblings : List Token} (hl : LeftOf l siblings)
    (h : ∀ u ∈ siblings, Q u) : ∀ u ∈ l, Q u := by
  rcases hl with rfl | ⟨lead, -, rfl⟩
  · exact h
  · exact (List.forall_mem_cons.1 h).2

/-- Clearing takes the last sibling away if that is white space, or none. -/
theorem clear_siblings (s : State) (rest : List Token) :
    LeftOf (clear s rest).state.siblings s.siblings := by
  obtain ⟨line?, position, pragmas, siblings, opened⟩ := s
  -- only after one token of the line, and only if it is white space
  by_cases hlead : position = 1 ∧ ∃ lead before, siblings = lead :: before ∧ lead.isBlank = true
  · obtain ⟨rfl, lead, before, rfl, hblank⟩ := hlead
    unfold clear
    dsimp only
    repeat' split
    all_goals
      first
      | exact .inl rfl
      | exact .inr ⟨lead, hblank, by simp_all⟩
  · left
    unfold clear
    dsimp only
    repeat' split
    all_goals
      first
      | rfl
      | simp_all

/-- Reading a name reshapes a token. -/
theorem SameButName.reshaped {t u : Token} (h : SameButName t u) : Reshaped t u := by
  refine ⟨.inl h.kind, ?_, ?_, ?_, ?_⟩ <;> rw [h.eq]

/-- Whether what comes next stands directly inside a parent tag. -/
def insideParent (os : List OpenTag) : Bool := os.head?.any fun o => o.tag.kind = .parentTag

/-- A node that encloses nothing and is made of a token. Without the pragma
a block is a variable. -/
structure IsLeafOf (t node : Token) : Prop where
  shape : Reshaped t node
  nodes : node.nodes? = t.nodes?
  kind : node.kind = t.kind ∧ t.kind ∉ [.sectionTag, .invertedTag, .parentTag, .blockVar,
    .closingTag, .delimiterTag] ∨ t.kind = .blockVar ∧ node.kind = .escaped

/-- An open tag that is made of a token. A block directly inside a parent
tag is an override. -/
structure IsTagOf (inParent : Bool) (t tag : Token) : Prop where
  shape : Reshaped t tag
  kind : tag.kind = t.kind ∧ t.kind ∈ [.sectionTag, .invertedTag, .parentTag, .blockVar] ∨
    t.kind = .blockVar ∧ tag.kind = .blockArg ∧ inParent = true

/-- **A turn**: all that a token does to the siblings and to the open tags,
by its kind. -/
inductive Turn (t : Token) :
    List Token → List OpenTag → List Token → List OpenTag → Prop
  | pass {l : List Token} {os : List OpenTag} : t.kind = .delimiterTag → Turn t l os l os
  | leaf {l : List Token} {os : List OpenTag} {node : Token} :
      IsLeafOf t node → Turn t l os (node :: l) os
  | enter {l : List Token} {os : List OpenTag} {tag : Token} :
      IsTagOf (insideParent os) t tag → Turn t l os [] (⟨tag, l⟩ :: os)
  | close {l : List Token} {o : OpenTag} {os : List OpenTag} :
      t.kind = .closingTag →
      Turn t l (o :: os) ({ o.tag with stop? := t.offset?, nodes? := some l.reverse } :: o.before)
        os

/-- A turn is a move. -/
theorem Turn.moves {t : Token} {l l' : List Token} {os os' : List OpenTag}
    (h : Turn t l os l' os') : Moves t l os l' os' := by
  cases h with
  | pass => exact .stay
  | leaf hleaf => exact .add hleaf.shape hleaf.nodes
  | enter htag =>
    refine .enter htag.shape ?_
    rcases htag.kind with ⟨-, hkind⟩ | ⟨hkind, -⟩
    · rintro heq
      rw [heq] at hkind
      exact absurd hkind (by decide)
    · rw [hkind]
      decide
  | close hkind => exact .close ⟨.inl rfl, rfl, rfl, rfl, rfl⟩ rfl (by rw [hkind]; decide)

/-- Placing a token whose name has been read. The siblings are looked at
after the white space around the token is taken away. -/
theorem turn_of_place {s s' : State} {t u : Token} {rest : List Token} {drops : Bool}
    (h : place s u rest = .ok (s', drops)) (hname : SameButName t u) :
    ∃ l, LeftOf l s.siblings ∧ Turn t l s.opened s'.siblings s'.opened := by
  have hshape := hname.reshaped
  have hcleared {s'' : State}
      (hturn : Turn t (clear s rest).state.siblings s.opened s''.siblings s''.opened) :
      ∃ l, LeftOf l s.siblings ∧ Turn t l s.opened s''.siblings s''.opened :=
    ⟨_, clear_siblings s rest, hturn⟩
  have hopened := clear_opened s rest
  have henclosing (hkind : u.kind ∈ [.sectionTag, .invertedTag, .parentTag, .blockVar]) :
      IsTagOf (insideParent s.opened) t u := ⟨hshape, .inl ⟨hname.kind, hname.kind ▸ hkind⟩⟩
  have hplain (hkind : u.kind ∈ [.text, .escaped, .tripleBrace, .ampersand, .partialTag, .pragma,
      .comment, .blockArg]) : IsLeafOf t u := by
    refine ⟨hshape, hname.nodes, .inl ⟨hname.kind, fun hmem => ?_⟩⟩
    rw [← hname.kind] at hmem
    revert hkind hmem
    cases u.kind <;> decide
  cases placing_of_place h with
  | pass hkind =>
    refine hcleared ?_
    rw [hopened]
    exact .pass (hname.kind ▸ hkind)
  | enter hkind =>
    refine hcleared ?_
    rw [State.enter, hopened]
    exact .enter (henclosing (by rcases hkind with hkind | hkind <;> simp [hkind]))
  | enterParent hkind =>
    exact ⟨_, .refl _, .enter (henclosing (by simp [hkind]))⟩
  | enterBlock hkind =>
    refine hcleared ?_
    rw [State.enter, hopened]
    refine .enter ?_
    split
    · next hinside =>
      have hinside : insideParent s.opened = true := by
        simpa [insideParent, State.enclosing?, Option.any_map] using hinside
      exact ⟨⟨.inr ⟨hname.kind ▸ hkind, by simp⟩, hshape.line, hshape.offset, hshape.text,
        hshape.delimiters⟩, .inr ⟨hname.kind ▸ hkind, rfl, hinside⟩⟩
    · exact henclosing (by simp [hkind])
  | close hkind hcons =>
    refine hcleared ?_
    rw [hcons, show u.offset? = t.offset? from hshape.offset]
    exact .close (hname.kind ▸ hkind)
  | addPartial hkind =>
    refine hcleared ?_
    rw [State.add, hopened]
    have hleaf := hplain (by simp [hkind])
    exact .leaf ⟨hleaf.shape.indented _, (indented_nodes _ _).trans hleaf.nodes,
      by rw [indented_kind]; exact hleaf.kind⟩
  | addSigil hkind =>
    refine ⟨_, .refl _, .leaf ⟨?_, hname.nodes, .inr ⟨hname.kind ▸ hkind, rfl⟩⟩⟩
    exact ⟨.inr ⟨hname.kind ▸ hkind, by simp⟩, hshape.line, hshape.offset, hshape.text,
      hshape.delimiters⟩
  | addPragma hkind | addComment hkind =>
    refine hcleared ?_
    rw [State.add, hopened]
    exact .leaf (hplain (by simp [hkind]))
  | addLeaf hkind => exact ⟨_, .refl _, .leaf (hplain (by revert hkind; cases u.kind <;> decide))⟩

/-- **A step is a turn**, from the siblings that are left when the white
space around its token is taken away. -/
theorem turn_of_step {s s' : State} {t : Token} {rest : List Token} {drops : Bool}
    (h : step s t rest = .ok (s', drops)) :
    ∃ l, LeftOf l s.siblings ∧ Turn t l s.opened s'.siblings s'.opened := by
  obtain ⟨u, hread, h⟩ := exists_of_step h
  obtain ⟨l, hl, hturn⟩ := turn_of_place h (sameButName_readName hread)
  rw [countLine_siblings] at hl
  rw [countLine_opened] at hturn
  exact ⟨l, hl, hturn⟩

theorem moves_of_step {s s' : State} {t : Token} {rest : List Token} {drops : Bool}
    (h : step s t rest = .ok (s', drops)) :
    ∃ l, LeftOf l s.siblings ∧ Moves t l s.opened s'.siblings s'.opened := by
  obtain ⟨l, hl, hturn⟩ := turn_of_step h
  exact ⟨l, hl, hturn.moves⟩

/-- What every step keeps, of the tree so far and the tokens still to come,
holds when all are taken. -/
theorem build_induct {I : State → List Token → Prop}
    (hstep : ∀ s t rest s' drops, step s t rest = .ok (s', drops) → I s (t :: rest) →
      I s' (if drops then rest.tail else rest))
    {s s' : State} {ts : List Token} (h : build s ts = .ok s') (hs : I s ts) : I s' [] := by
  induction s, ts using build.induct with
  | case1 s =>
    rw [build] at h
    cases h
    exact hs
  | case2 s t rest s₁ drops hfirst ih =>
    rw [build, hfirst] at h
    exact ih h (hstep s t rest s₁ drops hfirst hs)
  | case3 s t rest e hfirst =>
    rw [build, hfirst] at h
    cases h

/-- The tokens still to come after a step are some of the others. -/
theorem mem_of_mem_after {rest : List Token} {drops : Bool} {u : Token}
    (h : u ∈ if drops then rest.tail else rest) : u ∈ rest := by
  split at h
  · exact List.mem_of_mem_tail h
  · exact h

/-! ## What holds of every node -/

section Building

variable {P : Token → Prop}

/-- It holds of every node of a tree under construction. -/
structure State.Everywhere (P : Token → Prop) (s : State) : Prop where
  siblings : ∀ t ∈ s.siblings, Token.Everywhere P t
  tags : ∀ o ∈ s.opened, P o.tag
  before : ∀ o ∈ s.opened, ∀ t ∈ o.before, Token.Everywhere P t

variable (hP : ∀ t u, Reshaped t u → P t → P u)

include hP

theorem everywhere_step {s s' : State} {t : Token} {rest : List Token} {drops : Bool}
    (h : step s t rest = .ok (s', drops)) (hs : s.Everywhere P) (ht : Token.Everywhere P t) :
    s'.Everywhere P := by
  obtain ⟨l, hl, hmoves⟩ := moves_of_step h
  have hleft := hl.forall_mem hs.siblings
  obtain ⟨line?, position, pragmas, siblings, opened⟩ := s'
  obtain ⟨line?', position', pragmas', siblings', opened'⟩ := s
  obtain ⟨-, htags, hbefore⟩ := hs
  dsimp only at hmoves htags hbefore
  cases hmoves with
  | stay => exact ⟨hleft, htags, hbefore⟩
  | add hshape hnodes =>
    refine ⟨?_, htags, hbefore⟩
    intro u hu
    rcases List.mem_cons.1 hu with rfl | hu
    · refine Token.everywhere_iff.2 ⟨hP t _ hshape ht.self, ?_⟩
      rw [Token.nodes, hnodes]
      exact ht.nodes
    · exact hleft u hu
  | enter hshape _ =>
    refine ⟨nofun, ?_, ?_⟩
    · intro o ho
      rcases List.mem_cons.1 ho with rfl | ho
      · exact hP t _ hshape ht.self
      · exact htags o ho
    · intro o ho
      rcases List.mem_cons.1 ho with rfl | ho
      · exact hleft
      · exact hbefore o ho
  | close hshape hnodes _ =>
    refine ⟨?_, fun o ho => htags o (List.mem_cons_of_mem _ ho),
      fun o ho => hbefore o (List.mem_cons_of_mem _ ho)⟩
    intro u hu
    rcases List.mem_cons.1 hu with rfl | hu
    · refine Token.everywhere_iff.2 ⟨hP _ _ hshape (htags _ List.mem_cons_self), ?_⟩
      rw [Token.nodes, hnodes]
      exact Token.everywhereIn_iff.2 fun v hv => hleft v (List.mem_reverse.1 hv)
    · exact hbefore _ List.mem_cons_self u hu

theorem everywhere_build {s s' : State} {ts : List Token} (h : build s ts = .ok s')
    (hs : s.Everywhere P) (hts : ∀ t ∈ ts, Token.Everywhere P t) : s'.Everywhere P := by
  have hkept := build_induct (I := fun s ts => s.Everywhere P ∧ ∀ t ∈ ts, Token.Everywhere P t)
    (fun s t rest s₁ drops hstep hI => ?_) h ⟨hs, hts⟩
  · exact hkept.1
  · obtain ⟨ht, hrest⟩ := List.forall_mem_cons.1 hI.2
    exact ⟨everywhere_step hP hstep hI.1 ht, fun u hu => hrest u (mem_of_mem_after hu)⟩

/-- **What holds of every token holds of every node** of the tree, if it
does not depend on what the parser changes. -/
theorem everywhere_ofTokens {pragmas : List Pragma} {ts : List Token} {tree : Tree}
    (h : ofTokens pragmas ts = .ok tree) (hts : ∀ t ∈ ts, Token.Everywhere P t) :
    EverywhereIn P tree.nodes := by
  obtain ⟨s, hbuild, -, rfl⟩ := ofTokens_eq_ok_iff.1 h
  have hs := everywhere_build hP hbuild ⟨nofun, nofun, nofun⟩ hts
  exact Token.everywhereIn_iff.2 fun t ht => hs.siblings t (List.mem_reverse.1 ht)

end Building

end Tree

/-! ## What holds of every token -/

namespace Scan

variable {P : Token → Prop} {I : Cursor → Prop}

/-- What each step establishes of its token, as long as it keeps what it
starts from, holds of all tokens. -/
theorem forall_tokensFrom
    (hstep : ∀ start cs step, readToken start cs = .ok step → I start → P step.token ∧ I step.next)
    {start : Cursor} {cs : List Char} {ts : List Token} (h : tokensFrom start cs = .ok ts)
    (hstart : I start) : ∀ t ∈ ts, P t := by
  fun_induction tokensFrom start cs generalizing ts with
  | case1 =>
    cases h
    intro t ht
    cases ht
  | case2 start c r step hread ih =>
    cases hmore : tokensFrom step.next step.rest with
    | error e => rw [hmore] at h; cases h
    | ok more =>
      rw [hmore] at h
      cases h
      obtain ⟨htoken, hnext⟩ := hstep start (c :: r) step hread hstart
      intro t ht
      rcases List.mem_cons.1 ht with rfl | ht
      · exact htoken
      · exact ih hmore hnext t ht
  | case3 => cases h

theorem mem_of_mem_hoistPragmas {ts : List Token} {t : Token} (h : t ∈ hoistPragmas ts) :
    t ∈ ts := by
  rcases List.mem_append.1 h with h | h
  · exact (List.mem_filter.1 (List.mem_reverse.1 h)).1
  · exact (List.mem_filter.1 h).1

/-- A scan is a reading with its pragmas put first. -/
theorem exists_of_scan {delimiters : Delimiters} {source : String} {ts : List Token}
    (h : Token.scan delimiters source = .ok ts) :
    ∃ raw, tokensFrom ⟨0, 0, delimiters⟩ source.toList = .ok raw ∧ ts = hoistPragmas raw := by
  unfold Token.scan at h
  cases hraw : tokensFrom ⟨0, 0, delimiters⟩ source.toList with
  | error e => rw [hraw] at h; cases h
  | ok raw =>
    rw [hraw] at h
    cases h
    exact ⟨raw, rfl, rfl⟩

theorem readToken_fresh {start : Cursor} {cs : List Char} {step : Step}
    (h : readToken start cs = .ok step) : step.token.Fresh := by
  unfold readToken at h
  split at h
  · exact (readsTag_readTag h).fresh
  · cases h
    exact ⟨fun _ => rfl, fun h => absurd rfl h, rfl, rfl⟩

theorem readToken_accepted {start : Cursor} {cs : List Char} {step : Step}
    (h : readToken start cs = .ok step) (hstart : start.delimiters.Accepted) :
    AcceptedIfAny step.token.delimiters? ∧ step.next.delimiters.Accepted := by
  unfold readToken at h
  split at h
  · have htag := readsTag_readTag h
    refine ⟨?_, ?_⟩
    · intro d hd
      rw [htag.delimiters d hd]
      exact hstart
    · rcases htag.follow with heq | haccepted
      · rw [heq]
        exact hstart
      · exact haccepted
  · cases h
    exact ⟨nofun, hstart⟩

/-- The tokens of a scan are as the scanner makes them. -/
theorem fresh_scan {delimiters : Delimiters} {source : String} {ts : List Token}
    (h : Token.scan delimiters source = .ok ts) : ∀ t ∈ ts, t.Fresh := by
  obtain ⟨raw, hraw, rfl⟩ := exists_of_scan h
  have hall := forall_tokensFrom (P := Token.Fresh) (I := fun _ => True)
    (fun _ _ _ hread _ => ⟨readToken_fresh hread, trivial⟩) hraw trivial
  exact fun t ht => hall t (mem_of_mem_hoistPragmas ht)

/-- A token encloses nothing. -/
theorem nodes_scan {delimiters : Delimiters} {source : String} {ts : List Token}
    (h : Token.scan delimiters source = .ok ts) : ∀ t ∈ ts, t.nodes? = none :=
  fun t ht => (fresh_scan h t ht).nodes

end Scan

/-! ## The delimiters of tags -/

/-- The tag is written with delimiters that a text names. -/
def Token.IsAccepted (t : Token) : Prop := AcceptedIfAny t.delimiters?

theorem Scan.accepted_scan {delimiters : Delimiters} {source : String} {ts : List Token}
    (h : Token.scan delimiters source = .ok ts) (hstart : delimiters.Accepted) :
    ∀ t ∈ ts, Token.Everywhere Token.IsAccepted t := by
  intro t ht
  have hnodes := nodes_scan h t ht
  obtain ⟨raw, hraw, rfl⟩ := exists_of_scan h
  refine Token.everywhere_iff.2 ⟨?_, ?_⟩
  · exact forall_tokensFrom (P := Token.IsAccepted) (I := fun start => start.delimiters.Accepted)
      (fun _ _ _ hread => readToken_accepted hread) hraw hstart t (mem_of_mem_hoistPragmas ht)
  · rw [Token.nodes, hnodes]
    exact trivial

/-- **Every tag of a tree is written with accepted delimiters**, if the
template starts with such. -/
theorem Tree.accepted_nodes {delimiters : Delimiters} {pragmas : List Pragma} {source : String}
    {ts : List Token} {tree : Tree} (hscan : Token.scan delimiters source = .ok ts)
    (htree : Tree.ofTokens pragmas ts = .ok tree) (hstart : delimiters.Accepted) :
    Token.EverywhereIn Token.IsAccepted tree.nodes := by
  refine Tree.everywhere_ofTokens ?_ htree (Scan.accepted_scan hscan hstart)
  intro t u hshape ht
  unfold Token.IsAccepted
  rw [hshape.delimiters]
  exact ht

end Mustache
