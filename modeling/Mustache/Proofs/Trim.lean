import Mustache.Proofs.Lines
/-!
# Mustache — what one token does to the tree

Trimming decides two things: which pieces of text stay in the tree, and
which indent a partial gets. Both are read off a tree by `leavesOf`, in
the order of the template, and off a tree under construction by
`State.leaves`.

All that the parser can do with a token is listed by `Placing`, kind by
kind (`place_eq_ok_iff`), and what a step keeps or changes is read off that
list. Here it is `Stepped`: a step counts its token on the line, takes the
white space around it where the token is a tag that may stand alone, and
then adds at most one leaf (`stepped_of_step`).
-/

namespace Mustache

namespace TokenKind

/-- The tags that take a line with them which they have to themselves. A
block is one only if templates have blocks. -/
def standsAlone (blocks : Bool) : TokenKind → Bool
  | .delimiterTag | .sectionTag | .invertedTag | .closingTag | .partialTag | .comment => true
  | .blockVar => blocks
  | _ => false

/-- The tags that enclose what follows them. -/
def opens (blocks : Bool) : TokenKind → Bool
  | .sectionTag | .invertedTag | .parentTag => true
  | .blockVar => blocks
  | _ => false

end TokenKind

namespace Tree

/-- What trimming leaves behind: a piece of text, or a partial with its
indent. -/
inductive Leaf where
  | text (token : Token)
  | insert (indent : Option String)

namespace Leaf

def isText : Leaf → Bool
  | .text _ => true
  | .insert _ => false

end Leaf

mutual

/-- The leaves of some nodes, in the order of the template. -/
def leavesOf : List Token → List Leaf
  | [] => []
  | t :: ts => leaves t ++ leavesOf ts

/-- The leaves of a node: its own, or those of the nodes inside it. -/
def leaves : Token → List Leaf
  | t@⟨kind, _, _, _, _, _, _, _, indent?, _, nodes?⟩ =>
    if kind = .text then [.text t]
    else if kind = .partialTag then [.insert indent?]
    else leavesInside nodes?

/-- The leaves of the nodes inside a tag. -/
def leavesInside : Option (List Token) → List Leaf
  | none => []
  | some ts => leavesOf ts

end

theorem leavesOf_append (ts us : List Token) :
    leavesOf (ts ++ us) = leavesOf ts ++ leavesOf us := by
  induction ts with
  | nil => rfl
  | cons t ts ih => simp [leavesOf, ih]

theorem leaves_of_text {t : Token} (h : t.kind = .text) : leaves t = [.text t] := by
  cases t
  simp_all [leaves]

theorem leaves_of_partial {t : Token} (h : t.kind = .partialTag) :
    leaves t = [.insert t.indent?] := by
  cases t
  simp_all [leaves]

theorem leaves_of_tag {t : Token} (htext : t.kind ≠ .text) (hpartial : t.kind ≠ .partialTag) :
    leaves t = leavesInside t.nodes? := by
  cases t
  simp_all [leaves]

/-- A tag that encloses nothing has no leaves. -/
theorem leaves_eq_nil {t : Token} (htext : t.kind ≠ .text) (hpartial : t.kind ≠ .partialTag)
    (hnodes : t.nodes? = none) : leaves t = [] := by
  rw [leaves_of_tag htext hpartial, hnodes, leavesInside]

namespace State

/-- The leaves of a tree under construction. -/
def leaves (s : State) : List Leaf :=
  (s.opened.reverse.flatMap fun o => leavesOf o.before.reverse) ++ leavesOf s.siblings.reverse

theorem leaves_add (s : State) (node : Token) :
    (s.add node).leaves = s.leaves ++ Tree.leaves node := by
  simp [leaves, add, leavesOf_append, leavesOf]

theorem leaves_enter (s : State) (tag : Token) : (s.enter tag).leaves = s.leaves := by
  simp [leaves, enter, leavesOf]

theorem leaves_countLine (s : State) (line : Nat) : (s.countLine line).leaves = s.leaves := by
  unfold countLine
  split <;> rfl

/-- The last sibling has the last leaves. -/
theorem leaves_of_siblings {s : State} {node : Token} {before : List Token}
    (h : s.siblings = node :: before) :
    s.leaves = { s with siblings := before }.leaves ++ Tree.leaves node := by
  simp [leaves, h, leavesOf_append, leavesOf]

/-- The tags that are open are neither text nor partials. -/
def OpenedTags (s : State) : Prop :=
  ∀ o ∈ s.opened, o.tag.kind ≠ .text ∧ o.tag.kind ≠ .partialTag

end State

/-! ## Siblings

What the parser looks back at is the last sibling, and it only asks
whether that is a piece of white space. So two lists of siblings are as
good as each other if they agree down to the first node that is no text. -/

theorem isBlank_kind {t : Token} (h : t.isBlank = true) : t.kind = .text := by
  simp only [Token.isBlank, Bool.and_eq_true, decide_eq_true_eq] at h
  exact h.1

/-- Two lists of siblings, last one first, agree down to the first node
that is no text. -/
inductive SameSiblings : List Token → List Token → Prop
  | nil : SameSiblings [] []
  | text {t : Token} {l m : List Token} :
      t.kind = .text → SameSiblings l m → SameSiblings (t :: l) (t :: m)
  | tag {t u : Token} {l m : List Token} :
      t.kind ≠ .text → u.kind ≠ .text → SameSiblings (t :: l) (u :: m)

/-- The siblings after a token, given those before it: a tag that encloses
others starts anew, and a set-delimiter tag leaves no node. -/
def siblingsAfter (blocks : Bool) (t : Token) (siblings : List Token) : List Token :=
  if t.kind = .delimiterTag then siblings
  else if t.kind.opens blocks then []
  else t :: siblings

/-! ## One step -/

/-- The state in which a token is placed: its line counted, and the white
space around it taken if it may stand alone. -/
def clearedAt (blocks : Bool) (s : State) (t : Token) (rest : List Token) : Cleared :=
  if t.kind.standsAlone blocks then clear (s.countLine t.line) rest
  else ⟨s.countLine t.line, false, none⟩

/-- The leaf that a token adds, given the white space taken before it. -/
def leafOf (t : Token) (lead? : Option Token) : List Leaf :=
  if t.kind = .text then [.text t]
  else if t.kind = .partialTag then [.insert (lead?.bind (·.text?))]
  else []

/-- A tag that is no partial adds none. -/
theorem leafOf_eq_nil {t : Token} (htext : t.kind ≠ .text) (hpartial : t.kind ≠ .partialTag)
    (lead? : Option Token) : leafOf t lead? = [] := by
  rw [leafOf, if_neg htext, if_neg hpartial]

/-- **What a step does**, as far as trimming goes. -/
structure Stepped (blocks : Bool) (s : State) (t : Token) (rest : List Token) (s' : State)
    (drops : Bool) : Prop where
  drops_eq : drops = (clearedAt blocks s t rest).dropsNext
  line : s'.line? = some t.line
  position : s'.position = (s.countLine t.line).position
  pragmas : s'.pragmas = s.pragmas
  opened : s'.OpenedTags
  leaves : s'.leaves = (clearedAt blocks s t rest).state.leaves ++
    leafOf t (clearedAt blocks s t rest).lead?
  siblings : ∀ m, SameSiblings (clearedAt blocks s t rest).state.siblings m →
    SameSiblings s'.siblings (siblingsAfter blocks t m)

section Clear

variable (s : State) (rest : List Token)

/-- Clearing touches nothing but the siblings. -/
theorem clear_state :
    (clear s rest).state = { s with siblings := (clear s rest).state.siblings } := by
  unfold clear
  dsimp only
  repeat' split
  all_goals rfl

@[simp] theorem clear_pragmas : (clear s rest).state.pragmas = s.pragmas := by rw [clear_state]
@[simp] theorem clear_opened : (clear s rest).state.opened = s.opened := by rw [clear_state]

variable (blocks : Bool) (t : Token)

@[simp] theorem countLine_line (line : Nat) : (s.countLine line).line? = some line := by
  unfold State.countLine
  split
  · assumption
  · rfl

@[simp] theorem countLine_pragmas (line : Nat) : (s.countLine line).pragmas = s.pragmas := by
  unfold State.countLine
  split <;> rfl

@[simp] theorem countLine_opened (line : Nat) : (s.countLine line).opened = s.opened := by
  unfold State.countLine
  split <;> rfl

@[simp] theorem countLine_siblings (line : Nat) : (s.countLine line).siblings = s.siblings := by
  unfold State.countLine
  split <;> rfl

/-- What a token does before it is placed: its line is counted, and
siblings may go. -/
theorem clearedAt_state :
    (clearedAt blocks s t rest).state =
      { s.countLine t.line with siblings := (clearedAt blocks s t rest).state.siblings } := by
  unfold clearedAt
  split
  · exact clear_state _ _
  · rfl

end Clear

/-! ### Reading a name -/

/-- Two tokens differ in what is read off a name, if there is one. -/
structure SameButName (t u : Token) : Prop where
  eq : u = { t with name? := u.name?, dynamic := u.dynamic, filters := u.filters }
  unnamed : t.name? = none → u = t

theorem SameButName.refl (t : Token) : SameButName t t :=
  ⟨by cases t; rfl, fun _ => rfl⟩

section

variable {t u : Token} (h : SameButName t u)

include h

theorem SameButName.kind : u.kind = t.kind := by rw [h.eq]
theorem SameButName.indent : u.indent? = t.indent? := by rw [h.eq]
theorem SameButName.nodes : u.nodes? = t.nodes? := by rw [h.eq]

end

theorem sameButName_readDynamicName {t u : Token} (h : readDynamicName t = .ok u)
    (hnamed : t.name? ≠ none) : SameButName t u := by
  unfold readDynamicName at h
  split at h
  · split at h
    · cases h
      exact ⟨rfl, fun hnone => absurd hnone hnamed⟩
    · cases h
  · cases h
    exact .refl t

theorem sameButName_readFilters {t u : Token} (h : SameButName t u) (hnamed : t.name? ≠ none) :
    SameButName t (readFilters u) := by
  unfold readFilters
  split
  · exact ⟨by rw [h.eq], fun hnone => absurd hnone hnamed⟩
  · exact h

/-- Reading a name touches nothing that trimming looks at. -/
theorem sameButName_readName {pragmas : PragmaSet} {t u : Token} (h : readName pragmas t = .ok u) :
    SameButName t u := by
  unfold readName at h
  split at h
  · cases h
    exact .refl t
  · next hnamed =>
    have hne : t.name? ≠ none := by
      intro hnone
      exact hnamed (.inr (by rw [hnone]; rfl))
    obtain ⟨v, hv, hu⟩ : ∃ v, SameButName t v ∧
        u = if pragmas.has .filters then readFilters v else v := by
      cases hdyn : pragmas.has .dynamicNames with
      | false =>
        simp only [hdyn, Bool.false_eq_true, if_false] at h
        cases h
        exact ⟨t, .refl t, rfl⟩
      | true =>
        simp only [hdyn, if_true] at h
        cases hread : readDynamicName t with
        | error e => rw [hread] at h; cases h
        | ok v =>
          rw [hread] at h
          cases h
          exact ⟨v, sameButName_readDynamicName hread hne, rfl⟩
    rw [hu]
    split
    · exact sameButName_readFilters hv hne
    · exact hv

/-! ### All that placing a token can do -/

/-- A partial with the white space that was taken away before it. -/
def indented (t : Token) : Option Token → Token
  | some lead => { t with indent? := lead.text? }
  | none => t

@[simp] theorem indented_kind (t : Token) (lead? : Option Token) :
    (indented t lead?).kind = t.kind := by cases lead? <;> rfl

@[simp] theorem indented_nodes (t : Token) (lead? : Option Token) :
    (indented t lead?).nodes? = t.nodes? := by cases lead? <;> rfl

theorem indented_indent {t : Token} (hindent : t.indent? = none) (lead? : Option Token) :
    (indented t lead?).indent? = lead?.bind (·.text?) := by
  cases lead? with
  | none => exact hindent
  | some lead => rfl

/-- **All that placing a token can do**, by its kind: the tree with the token,
and whether the next token goes with it. -/
inductive Placing (s : State) (t : Token) (rest : List Token) : State → Bool → Prop
  /-- A set-delimiter tag leaves no node. -/
  | pass : t.kind = .delimiterTag → checkOutsideParent s t = .ok () →
      Placing s t rest (clear s rest).state (clear s rest).dropsNext
  /-- A section encloses what follows, with its line cleared. -/
  | enter : t.kind = .sectionTag ∨ t.kind = .invertedTag → checkOutsideParent s t = .ok () →
      Placing s t rest ((clear s rest).state.enter t) (clear s rest).dropsNext
  /-- A parent tag leaves its line as it is. -/
  | enterParent : t.kind = .parentTag → checkOutsideParent s t = .ok () →
      Placing s t rest (s.enter t) false
  /-- A block directly inside a parent tag is an override. -/
  | enterBlock : t.kind = .blockVar → s.pragmas.has .blocks = true →
      Placing s t rest
        ((clear s rest).state.enter
          (if s.enclosing?.any fun p => p.kind = .parentTag then { t with kind := .blockArg }
          else t))
        (clear s rest).dropsNext
  /-- A closing tag of the same name makes a node of the innermost open tag. -/
  | close {o : OpenTag} {opened : List OpenTag} : t.kind = .closingTag →
      s.opened = o :: opened → t.name = o.tag.name → t.dynamic = o.tag.dynamic →
      Placing s t rest
        { (clear s rest).state with
          siblings := { o.tag with
            stop? := t.offset?
            nodes? := some (clear s rest).state.siblings.reverse } :: o.before
          opened := opened }
        (clear s rest).dropsNext
  /-- A partial keeps the white space that is taken away before it. -/
  | addPartial : t.kind = .partialTag → checkOutsideParent s t = .ok () →
      Placing s t rest ((clear s rest).state.add (indented t (clear s rest).lead?))
        (clear s rest).dropsNext
  /-- A pragma is in effect from here on. -/
  | addPragma : t.kind = .pragma →
      Placing s t rest
        (({ (clear s rest).state with pragmas := s.pragmas.enable t.name } : State).add t)
        (clear s rest).dropsNext
  /-- A comment is a node, though nothing is written for it. -/
  | addComment : t.kind = .comment →
      Placing s t rest ((clear s rest).state.add t) (clear s rest).dropsNext
  /-- Where blocks are off, the sigil of one is a character of its name. -/
  | addSigil : t.kind = .blockVar → s.pragmas.has .blocks = false →
      Placing s t rest (s.add { t with kind := .escaped, name? := some ("$" ++ t.name) }) false
  /-- All other kinds become nodes as they stand. -/
  | addLeaf : t.kind ∈ [.text, .escaped, .tripleBrace, .ampersand, .blockArg] →
      Placing s t rest (s.add t) false

theorem placing_of_place {s s' : State} {t : Token} {rest : List Token} {drops : Bool}
    (h : place s t rest = .ok (s', drops)) : Placing s t rest s' drops := by
  unfold place at h
  cases hkind : t.kind <;> rw [hkind] at h <;> dsimp only at h
  case delimiterTag =>
    obtain ⟨⟨⟩, hcheck, ⟨⟩⟩ := exists_of_bind_eq_ok h
    exact .pass hkind hcheck
  case sectionTag =>
    obtain ⟨⟨⟩, hcheck, ⟨⟩⟩ := exists_of_bind_eq_ok h
    exact .enter (.inl hkind) hcheck
  case invertedTag =>
    obtain ⟨⟨⟩, hcheck, ⟨⟩⟩ := exists_of_bind_eq_ok h
    exact .enter (.inr hkind) hcheck
  case parentTag =>
    obtain ⟨⟨⟩, hcheck, ⟨⟩⟩ := exists_of_bind_eq_ok h
    exact .enterParent hkind hcheck
  case partialTag =>
    -- the kind is part of the node too, where there is white space to keep
    rw [← hkind] at h
    obtain ⟨⟨⟩, hcheck, ⟨⟩⟩ := exists_of_bind_eq_ok h
    exact .addPartial hkind hcheck
  case closingTag =>
    unfold close at h
    split at h
    · cases h
    · next tag before opened hopened =>
      split at h
      · cases h
      · next hnamed =>
        cases h
        obtain ⟨hname, hdynamic⟩ := not_or.1 hnamed
        exact .close hkind hopened (Decidable.not_not.1 hname) (Decidable.not_not.1 hdynamic)
  case blockVar =>
    split at h <;> cases h
    · next hblocks => exact .enterBlock hkind hblocks
    · next hblocks => exact .addSigil hkind (Bool.eq_false_iff.2 hblocks)
  case pragma =>
    cases h
    exact .addPragma hkind
  case comment =>
    cases h
    exact .addComment hkind
  all_goals
    cases h
    exact .addLeaf (by rw [hkind]; decide)

theorem Placing.place_eq {s s' : State} {t : Token} {rest : List Token} {drops : Bool}
    (h : Placing s t rest s' drops) : place s t rest = .ok (s', drops) := by
  unfold place
  cases h with
  | pass hkind hcheck | enterParent hkind hcheck =>
    rw [hkind]
    dsimp only
    rw [hcheck]
    rfl
  | enter hkind hcheck =>
    rcases hkind with hkind | hkind <;> rw [hkind] <;> dsimp only <;> rw [hcheck] <;> rfl
  | addPartial hkind hcheck =>
    unfold indented
    rw [hkind]
    dsimp only
    rw [hcheck]
    rfl
  | close hkind hopened hname hdynamic =>
    rw [hkind]
    dsimp only [Tree.close]
    rw [hopened]
    dsimp only
    rw [if_neg (not_or.2 ⟨not_not_intro hname, not_not_intro hdynamic⟩)]
  | enterBlock hkind hblocks | addSigil hkind hblocks =>
    rw [hkind, hblocks]
    rfl
  | addPragma hkind | addComment hkind => rw [hkind]
  | addLeaf hkind =>
    simp only [List.mem_cons, List.not_mem_nil, or_false] at hkind
    rcases hkind with hkind | hkind | hkind | hkind | hkind <;> rw [hkind]

/-- **A token is placed in one of these ways.** -/
theorem place_eq_ok_iff {s s' : State} {t : Token} {rest : List Token} {drops : Bool} :
    place s t rest = .ok (s', drops) ↔ Placing s t rest s' drops :=
  ⟨placing_of_place, Placing.place_eq⟩

/-- A step counts the token on its line, reads its name, and places it. -/
theorem exists_of_step {s s' : State} {t : Token} {rest : List Token} {drops : Bool}
    (h : step s t rest = .ok (s', drops)) :
    ∃ u, readName (s.countLine t.line).pragmas t = .ok u ∧
      place (s.countLine t.line) u rest = .ok (s', drops) := by
  unfold step at h
  exact exists_of_bind_eq_ok h

/-! ### What placing a token does -/

section Placed

variable {blocks : Bool} {s : State} {t : Token} {rest : List Token}

@[simp] theorem clearedAt_line : (clearedAt blocks s t rest).state.line? = some t.line := by
  rw [clearedAt_state]
  exact countLine_line s t.line

@[simp] theorem clearedAt_position :
    (clearedAt blocks s t rest).state.position = (s.countLine t.line).position := by
  rw [clearedAt_state]

@[simp] theorem clearedAt_pragmas : (clearedAt blocks s t rest).state.pragmas = s.pragmas := by
  rw [clearedAt_state]
  exact countLine_pragmas s t.line

@[simp] theorem clearedAt_opened : (clearedAt blocks s t rest).state.opened = s.opened := by
  rw [clearedAt_state]
  exact countLine_opened s t.line

variable {cleared : Cleared}

/-- A set-delimiter tag leaves no node. -/
theorem stepped_stay (hcleared : clearedAt blocks s t rest = cleared) (ho : s.OpenedTags)
    (hkind : t.kind = .delimiterTag) :
    Stepped blocks s t rest cleared.state cleared.dropsNext := by
  subst hcleared
  refine ⟨rfl, clearedAt_line, clearedAt_position, clearedAt_pragmas, ?_, ?_, ?_⟩
  · unfold State.OpenedTags
    rw [clearedAt_opened]
    exact ho
  · simp [leafOf, hkind]
  · intro m hm
    rw [siblingsAfter, if_pos hkind]
    exact hm

/-- A token that becomes a node, and that encloses nothing. -/
theorem stepped_add {node : Token} (hcleared : clearedAt blocks s t rest = cleared)
    (ho : s.OpenedTags) (hkind : t.kind ≠ .delimiterTag) (hopens : t.kind.opens blocks = false)
    (hleaves : leaves node = leafOf t cleared.lead?)
    (hnode : t.kind = .text ∧ node = t ∨ t.kind ≠ .text ∧ node.kind ≠ .text) :
    Stepped blocks s t rest (cleared.state.add node) cleared.dropsNext := by
  subst hcleared
  refine ⟨rfl, clearedAt_line, clearedAt_position, clearedAt_pragmas, ?_, ?_, ?_⟩
  · change ∀ o ∈ (clearedAt blocks s t rest).state.opened, _
    rw [clearedAt_opened]
    exact ho
  · rw [State.leaves_add, hleaves]
  · intro m hm
    rw [siblingsAfter, if_neg hkind, hopens, if_neg (by simp)]
    rcases hnode with ⟨htext, rfl⟩ | ⟨htag, htag'⟩
    · exact .text htext hm
    · exact .tag htag' htag

/-- A tag that encloses what follows. -/
theorem stepped_enter {tag : Token} (hcleared : clearedAt blocks s t rest = cleared)
    (ho : s.OpenedTags) (htext : tag.kind ≠ .text) (hpartial : tag.kind ≠ .partialTag)
    (hopens : t.kind.opens blocks = true) :
    Stepped blocks s t rest (cleared.state.enter tag) cleared.dropsNext := by
  subst hcleared
  refine ⟨rfl, clearedAt_line, clearedAt_position, clearedAt_pragmas, ?_, ?_, ?_⟩
  · intro o hmem
    rcases List.mem_cons.1 hmem with rfl | hmem
    · exact ⟨htext, hpartial⟩
    · rw [clearedAt_opened] at hmem
      exact ho o hmem
  · have hnone : leafOf t (clearedAt blocks s t rest).lead? = [] := by
      rw [leafOf, if_neg, if_neg] <;> (intro h; rw [h] at hopens; cases hopens)
    rw [State.leaves_enter, hnone, List.append_nil]
  · intro m _
    have hkind : t.kind ≠ .delimiterTag := by
      intro h
      rw [h] at hopens
      cases hopens
    rw [siblingsAfter, if_neg hkind, if_pos hopens]
    exact .nil

/-- A closing tag makes a node of the innermost open tag. -/
theorem stepped_close {o : OpenTag} {opened : List OpenTag} {node : Token}
    (hcleared : clearedAt blocks s t rest = cleared) (ho : s.OpenedTags)
    (hcons : s.opened = o :: opened) (hclose : t.kind = .closingTag)
    (hkind : node.kind = o.tag.kind) (hnodes : node.nodes? = some cleared.state.siblings.reverse) :
    Stepped blocks s t rest
      { cleared.state with siblings := node :: o.before, opened := opened }
      cleared.dropsNext := by
  subst hcleared
  obtain ⟨htext, hpartial⟩ := ho o (by rw [hcons]; exact List.mem_cons_self)
  rw [← hkind] at htext hpartial
  refine ⟨rfl, clearedAt_line, clearedAt_position, clearedAt_pragmas, ?_, ?_, ?_⟩
  · intro p hp
    exact ho p (by rw [hcons]; exact List.mem_cons_of_mem _ hp)
  · simp [State.leaves, hcons, leafOf, hclose, leavesOf_append, leavesOf,
      leaves_of_tag htext hpartial, hnodes, leavesInside]
  · intro m _
    rw [siblingsAfter, hclose, if_neg (by decide), if_neg (by cases blocks <;> decide)]
    exact .tag htext (by rw [hclose]; decide)

end Placed

/-- Placing a token whose name has been read. -/
theorem stepped_place {s s' : State} {t u : Token} {rest : List Token} {drops : Bool}
    (h : place (s.countLine t.line) u rest = .ok (s', drops)) (hname : SameButName t u)
    (ht : t.Fresh) (hpragma : t.kind ≠ .pragma) (ho : s.OpenedTags) :
    Stepped (s.pragmas.has .blocks) s t rest s' drops := by
  have hcleared (blocks : Bool) (halone : t.kind.standsAlone blocks = true) :
      clearedAt blocks s t rest = clear (s.countLine t.line) rest := by
    rw [clearedAt, if_pos halone]
  have hcounted (blocks : Bool) (halone : t.kind.standsAlone blocks = false) :
      clearedAt blocks s t rest = ⟨s.countLine t.line, false, none⟩ := by
    rw [clearedAt, halone, if_neg (by simp)]
  have hnodes : u.nodes? = none := hname.nodes.trans ht.nodes
  -- the kinds that become a node without leaves
  have htag (hkind : t.kind ≠ .text ∧ t.kind ≠ .partialTag) (lead? : Option Token) :
      leaves u = leafOf t lead? := by
    rw [leafOf_eq_nil hkind.1 hkind.2]
    exact leaves_eq_nil (hname.kind ▸ hkind.1) (hname.kind ▸ hkind.2) hnodes
  rw [← hname.kind] at hpragma
  cases placing_of_place h with
  | pass hkind =>
    rw [hname.kind] at hkind
    exact stepped_stay (hcleared _ (by rw [hkind]; rfl)) ho hkind
  | enter hkind =>
    rw [hname.kind] at hkind
    rcases hkind with hkind | hkind <;>
      exact stepped_enter (hcleared _ (by rw [hkind]; rfl)) ho (by rw [hname.kind, hkind]; decide)
        (by rw [hname.kind, hkind]; decide) (by rw [hkind]; rfl)
  | enterParent hkind =>
    rw [hname.kind] at hkind
    exact stepped_enter (hcounted _ (by rw [hkind]; rfl)) ho (by rw [hname.kind, hkind]; decide)
      (by rw [hname.kind, hkind]; decide) (by rw [hkind]; rfl)
  | enterBlock hkind hblocks =>
    rw [countLine_pragmas] at hblocks
    rw [hblocks]
    refine stepped_enter (hcleared true (by rw [← hname.kind, hkind]; rfl)) ho ?_ ?_
      (by rw [← hname.kind, hkind]; rfl) <;>
      split <;> simp [hkind]
  | close hkind hopened =>
    rw [hname.kind] at hkind
    rw [countLine_opened] at hopened
    exact stepped_close (hcleared _ (by rw [hkind]; rfl)) ho hopened hkind rfl rfl
  | addPartial hkind =>
    have hindent : u.indent? = none := hname.indent.trans ht.indent
    rw [hname.kind] at hkind
    refine stepped_add (hcleared _ (by rw [hkind]; rfl)) ho (by rw [hkind]; decide)
      (by rw [hkind]; rfl) ?_ (.inr ⟨by rw [hkind]; decide, by simp [hname.kind, hkind]⟩)
    rw [leaves_of_partial (by simp [hname.kind, hkind]), indented_indent hindent, leafOf, hkind,
      if_neg (by decide), if_pos rfl]
  | addSigil hkind hblocks =>
    rw [countLine_pragmas] at hblocks
    rw [hname.kind] at hkind
    rw [hblocks]
    refine stepped_add (hcounted false (by rw [hkind]; rfl)) ho (by rw [hkind]; decide)
      (by rw [hkind]; rfl) ?_ (.inr ⟨by rw [hkind]; decide, (TokenKind.noConfusion ·)⟩)
    rw [leafOf_eq_nil (by rw [hkind]; decide) (by rw [hkind]; decide)]
    exact leaves_eq_nil (TokenKind.noConfusion ·) (TokenKind.noConfusion ·) hnodes
  | addPragma hkind => exact absurd hkind hpragma
  | addComment hkind =>
    rw [hname.kind] at hkind
    exact stepped_add (hcleared _ (by rw [hkind]; rfl)) ho (by rw [hkind]; decide)
      (by rw [hkind]; rfl) (htag (by rw [hkind]; decide) _)
      (.inr ⟨by rw [hkind]; decide, by rw [hname.kind, hkind]; decide⟩)
  | addLeaf hkind =>
    rw [hname.kind] at hkind
    by_cases htext : t.kind = .text
    · rw [hname.unnamed (ht.name_of_text htext)]
      exact stepped_add (hcounted _ (by rw [htext]; rfl)) ho (by rw [htext]; decide)
        (by rw [htext]; rfl) (by rw [leaves_of_text htext, leafOf, if_pos htext])
        (.inl ⟨htext, rfl⟩)
    · simp only [List.mem_cons, htext, List.not_mem_nil, or_false, false_or] at hkind
      rcases hkind with hkind | hkind | hkind | hkind <;>
        exact stepped_add (hcounted _ (by rw [hkind]; rfl)) ho (by rw [hkind]; decide)
          (by rw [hkind]; rfl) (htag (by rw [hkind]; decide) _)
          (.inr ⟨by rw [hkind]; decide, by rw [hname.kind, hkind]; decide⟩)

/-- **One step**, whatever the kind of the token. -/
theorem stepped_of_step {s s' : State} {t : Token} {rest : List Token} {drops : Bool}
    (h : step s t rest = .ok (s', drops)) (ht : t.Fresh) (hpragma : t.kind ≠ .pragma)
    (ho : s.OpenedTags) : Stepped (s.pragmas.has .blocks) s t rest s' drops := by
  obtain ⟨u, hread, h⟩ := exists_of_step h
  exact stepped_place h (sameButName_readName hread) ht hpragma ho

/-! ## The tree -/

/-- A tree comes of a run of the parser that leaves no tag open. -/
theorem ofTokens_eq_ok_iff {pragmas : List Pragma} {ts : List Token} {tree : Tree} :
    ofTokens pragmas ts = .ok tree ↔
      ∃ s, build ⟨none, 0, .ofPragmas pragmas, [], []⟩ ts = .ok s ∧ s.opened = [] ∧
        tree = ⟨s.siblings.reverse, s.pragmas⟩ := by
  unfold ofTokens
  constructor
  · intro h
    obtain ⟨s, hbuild, h⟩ := exists_of_bind_eq_ok h
    split at h
    · next hopened =>
      cases h
      exact ⟨s, hbuild, hopened, rfl⟩
    · cases h
  · rintro ⟨⟨line, position, set, siblings, opened⟩, hbuild, hopened, rfl⟩
    obtain rfl : opened = [] := hopened
    rw [hbuild]
    rfl

end Tree

end Mustache
