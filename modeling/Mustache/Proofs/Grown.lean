import Mathlib
import Mustache.Proofs.Balance
import Mustache.Proofs.Sections
/-!
# Mustache — tokens grow into nodes

A tree is made of the tokens of its template in order: each token becomes a
leaf, or leaves no node, or opens a tag whose nodes grow out of the tokens up
to its closing tag. `Grown` says so of tokens and nodes alone, without the
stack and the lines of the parser (`grown_ofTokens`), and of the tokens as
they stand in the text, without the pragmas (`exists_grown_raw`).

Every node that encloses others, however deep, stands between two of the
tokens and grows out of those between them (`Grown.exists_enclosed`). Tags
match in one way only (`Balanced.matching`). So sections among the nodes and
section tags among the tokens come to the same: each section has its tag
(`Grown.exists_spanned`), and each tag its section (`Grown.exists_section`).
-/

namespace Mustache

namespace Tree

open Token (Fresh PragmasFirst Within)

/-- **A token opens a tag**: a block only where templates have blocks, and
directly inside a parent tag an override only. -/
structure Opens (blocks inParent : Bool) (first tag : Token) : Prop where
  isTag : IsTagOf inParent first tag
  blocks : first.kind = .blockVar → blocks = true
  override : inParent = true → tag.kind = .blockArg

/-- **Tokens grow into nodes**, directly inside a parent tag or elsewhere. -/
inductive Grown (blocks : Bool) : (inParent : Bool) → (tokens nodes : List Token) → Prop
  | nil {inParent : Bool} : Grown blocks inParent [] []
  /-- A token that leaves no node: a set-delimiter tag, a pragma that was put
  first, or white space next to a tag. -/
  | pass {inParent : Bool} {t : Token} {ts nodes : List Token} :
      t.kind = .delimiterTag ∨ t.kind = .pragma ∨ t.isBlank = true →
      Grown blocks inParent ts nodes → Grown blocks inParent (t :: ts) nodes
  | leaf {inParent : Bool} {t node : Token} {ts nodes : List Token} :
      IsLeafOf t node → node.nodes? = none → (t.kind = .blockVar → blocks = false) →
      Grown blocks inParent ts nodes → Grown blocks inParent (t :: ts) (node :: nodes)
  | tag {inParent : Bool} {first tag last : Token} {inside children ts nodes : List Token} :
      Opens blocks inParent first tag →
      Grown blocks (tag.kind = .parentTag) inside children → last.kind = .closingTag →
      Grown blocks inParent ts nodes →
      Grown blocks inParent (first :: (inside ++ last :: ts))
        ({ tag with stop? := last.offset?, nodes? := some children } :: nodes)

namespace Grown

variable {blocks inParent : Bool} {t u first last : Token} {ts us nodes more : List Token}

theorem append (h : Grown blocks inParent ts nodes) (hmore : Grown blocks inParent us more) :
    Grown blocks inParent (ts ++ us) (nodes ++ more) := by
  induction h with
  | nil => exact hmore
  | pass hpass _ ih => exact .pass hpass (ih hmore)
  | leaf hleaf hnodes hblock _ ih => exact .leaf hleaf hnodes hblock (ih hmore)
  | tag hopens hinside hcloses _ _ ih =>
    rw [List.cons_append, List.append_assoc, List.cons_append]
    exact .tag hopens hinside hcloses (ih hmore)

/-- White space may be taken away. -/
theorem of_snoc_blank {lead : Token} (hblank : lead.isBlank = true)
    (h : Grown blocks inParent ts (nodes ++ [lead])) : Grown blocks inParent ts nodes := by
  generalize hall : nodes ++ [lead] = all at h
  induction h generalizing nodes with
  | nil => cases nodes <;> cases hall
  | pass hpass _ ih => exact .pass hpass (ih hall)
  | @leaf _ t node ts rest hleaf hnodes hblock hrest ih =>
    cases nodes with
    | nil =>
      obtain ⟨rfl, rfl⟩ := List.cons.inj hall
      -- the white space is a piece of text, and the token has the same text
      have hkind : lead.kind = .text := isBlank_kind hblank
      have hsame : lead.kind = t.kind := by
        rcases hleaf.kind with ⟨hsame, -⟩ | ⟨-, hescaped⟩
        · exact hsame
        · rw [hkind] at hescaped
          cases hescaped
      have hblank' : t.isBlank = true := by
        unfold Token.isBlank Token.text at hblank ⊢
        rw [← hsame, ← hleaf.shape.text]
        exact hblank
      exact .pass (.inr (.inr hblank')) hrest
    | cons v nodes =>
      obtain ⟨rfl, hmore⟩ := List.cons.inj hall
      exact .leaf hleaf hnodes hblock (ih hmore)
  | @tag _ first tag last inside children ts rest hopens hinside hcloses hrest _ ih =>
    cases nodes with
    | nil =>
      obtain ⟨rfl, -⟩ := List.cons.inj hall
      have hkind : tag.kind = .text := isBlank_kind hblank
      rcases hopens.isTag.kind with ⟨hsame, hmem⟩ | ⟨-, hblock, -⟩
      · rw [← hsame, hkind] at hmem
        exact absurd hmem (by decide)
      · rw [hkind] at hblock
        cases hblock
    | cons v nodes =>
      obtain ⟨rfl, hmore⟩ := List.cons.inj hall
      exact .tag hopens hinside hcloses (ih hmore)

end Grown

/-! ## The parser grows nodes -/

/-- The tree so far, with the tags that are open. -/
inductive GrownIn (blocks : Bool) : List Token → List Token → List OpenTag → Prop
  | outside {done l : List Token} : Grown blocks false done l.reverse → GrownIn blocks done l []
  | inside {done inside l : List Token} {first : Token} {o : OpenTag} {os : List OpenTag} :
      GrownIn blocks done o.before os → Opens blocks (insideParent os) first o.tag →
      Grown blocks (insideParent (o :: os)) inside l.reverse →
      GrownIn blocks (done ++ first :: inside) l (o :: os)

section Building

variable {blocks : Bool} {set : PragmaSet} {ts done more l l' : List Token}
variable {os os' : List OpenTag} {t : Token}

theorem GrownIn.append (h : GrownIn blocks done l os)
    (hmore : Grown blocks (insideParent os) ts more) :
    GrownIn blocks (done ++ ts) (more.reverse ++ l) os := by
  cases h with
  | outside hdone =>
    refine .outside ?_
    rw [List.reverse_append, List.reverse_reverse]
    exact hdone.append hmore
  | inside hbefore hopens hinside =>
    rw [List.append_assoc, List.cons_append]
    refine .inside hbefore hopens ?_
    rw [List.reverse_append, List.reverse_reverse]
    exact hinside.append hmore

theorem GrownIn.left {siblings : List Token} (hl : LeftOf l siblings)
    (h : GrownIn blocks done siblings os) : GrownIn blocks done l os := by
  rcases hl with rfl | ⟨lead, hblank, rfl⟩
  · exact h
  · cases h with
    | outside hdone =>
      rw [List.reverse_cons] at hdone
      exact .outside (hdone.of_snoc_blank hblank)
    | inside hbefore hopens hinside =>
      rw [List.reverse_cons] at hinside
      exact .inside hbefore hopens (hinside.of_snoc_blank hblank)

/-- **What the check of the parser says of a token**: a block opens a tag
just if templates have blocks, and directly inside a parent tag nothing opens
one but an override. -/
theorem Nesting.take_cases {n m : Nesting} (h : n.take t = .ok m) :
    (t.kind = .blockVar → m.tags = n.tags → n.pragmas.has .blocks = false) ∧
      ∀ tag, m.tags = tag :: n.tags →
        (t.kind = .blockVar → n.pragmas.has .blocks = true) ∧
          (n.inParent = true → tag.kind = .blockArg) := by
  unfold take at h
  obtain ⟨u, hread, h⟩ := exists_of_bind_eq_ok h
  have hsame := (sameButName_readName hread).kind
  have hlonger {tag : Token} {tags : List Token} (h : tags = tag :: tags) : False := by
    have hlength := congrArg List.length h
    simp at hlength
  rw [← hsame]
  cases place_eq_ok_iff.1 h with
  | opens hkind hout | stands hkind hout =>
    have hblock : u.kind ≠ .blockVar := fun heq => by simp [heq] at hkind
    refine ⟨fun heq => absurd heq hblock, fun tag _ => ⟨fun heq => absurd heq hblock, ?_⟩⟩
    rw [hout]
    exact nofun
  | opensBlock _ hblocks =>
    refine ⟨fun _ htags => (hlonger htags.symm).elim, fun tag htags => ⟨fun _ => hblocks, ?_⟩⟩
    intro hparent
    have htag := (List.cons.inj htags).1
    rw [hparent, if_pos rfl] at htag
    rw [← htag]
  | closes hkind hcons =>
    refine ⟨fun hblock => by simp [hkind] at hblock, fun tag htags => ?_⟩
    have hlength := congrArg List.length htags
    simp only [hcons, List.length_cons] at hlength
    omega
  | enables hkind =>
    exact ⟨fun hblock => by simp [hkind] at hblock, fun tag htags => (hlonger htags).elim⟩
  | plain hkind =>
    exact ⟨fun hblock => by simp [hblock] at hkind, fun tag htags => (hlonger htags).elim⟩
  | asVariable _ hblocks => exact ⟨fun _ _ => hblocks, fun tag htags => (hlonger htags).elim⟩

/-- **A turn goes on growing.** -/
theorem GrownIn.turn (h : GrownIn (set.has .blocks) done l os)
    (hin : TurnIn set ts done t l os l' os') : GrownIn (set.has .blocks) (done ++ [t]) l' os' := by
  have htake := hin.take
  have hnodes := hin.fresh.nodes
  cases hin.turn with
  | pass hkind => exact h.append (.pass (.inl hkind) .nil)
  | @leaf _ node hleaf =>
    have hblock (hkind : t.kind = .blockVar) :=
      (Nesting.take_cases (htake (by rw [hkind]; decide))).1 hkind rfl
    have hown : Grown (set.has .blocks) (insideParent os) [t] [node] :=
      .leaf hleaf (hleaf.nodes.trans hnodes) hblock .nil
    exact h.append hown
  | enter htag =>
    have hplain : t.kind ≠ .pragma := by
      intro hkind
      rcases htag.kind with ⟨-, hmem⟩ | ⟨hblock, -⟩
      · rw [hkind] at hmem
        exact absurd hmem (by decide)
      · rw [hkind] at hblock
        cases hblock
    obtain ⟨hblocks, hoverride⟩ := (Nesting.take_cases (htake hplain)).2 _ rfl
    refine .inside h ⟨htag, hblocks, fun hparent => hoverride ?_⟩ .nil
    unfold insideParent at hparent
    unfold Nesting.inParent
    rwa [List.head?_map, Option.any_map]
  | close hkind =>
    cases h with
    | inside hbefore hopens hinside =>
      rw [List.append_assoc, List.cons_append]
      exact hbefore.append (.tag hopens hinside hkind .nil)

/-- **A tree grows out of its tokens.** -/
theorem grown_ofTokens {pragmas : List Pragma} {tree : Tree}
    (h : ofTokens pragmas ts = .ok tree) (hfirst : PragmasFirst ts) (hfresh : ∀ t ∈ ts, t.Fresh) :
    Grown (tree.pragmas.has .blocks) false ts tree.nodes := by
  obtain ⟨s, hbuild, hopened, rfl⟩ := ofTokens_eq_ok_iff.1 h
  have hgrown := turns_build (I := GrownIn (s.pragmas.has .blocks)) hbuild hfirst hfresh
    (fun _ _ _ _ hl h => h.left hl) (fun _ _ _ _ _ _ hin h => h.turn hin)
    (fun _ _ _ _ hblank _ h => h.append (.pass (.inr (.inr hblank)) .nil)) (.outside .nil)
  rw [hopened] at hgrown
  cases hgrown with
  | outside h => exact h

theorem grown_of_scan {delimiters : Delimiters} {source : String} {pragmas : List Pragma}
    {tree : Tree} (hscan : Token.scan delimiters source = .ok ts)
    (htree : ofTokens pragmas ts = .ok tree) :
    Grown (tree.pragmas.has .blocks) false ts tree.nodes := by
  obtain ⟨raw, -, rfl⟩ := Scan.exists_of_scan hscan
  exact grown_ofTokens htree (Scan.pragmasFirst_hoistPragmas raw) (Scan.fresh_scan hscan)

end Building

/-! ## Tags match in one way -/

/-- How many tags are open after a token of some kind, more than before. -/
def rise (blocks : Bool) (kind : TokenKind) : Int :=
  if kind.opens blocks then 1 else if kind = .closingTag then -1 else 0

/-- **Every tag that is opened is closed, and no other.** -/
structure Balanced (blocks : Bool) (kinds : List TokenKind) : Prop where
  level : (kinds.map (rise blocks)).sum = 0
  above : ∀ before after, kinds = before ++ after → 0 ≤ (before.map (rise blocks)).sum

section Balance

variable {blocks inParent : Bool} {kinds kinds' after after' : List TokenKind}
variable {ts nodes : List Token}

theorem Balanced.nil : Balanced blocks [] where
  level := rfl
  above before after h := by
    obtain ⟨rfl, -⟩ := List.append_eq_nil_iff.1 h.symm
    exact Int.le_refl 0

/-- A token that opens and closes nothing. -/
theorem Balanced.cons {kind : TokenKind} (hkind : rise blocks kind = 0)
    (h : Balanced blocks kinds) : Balanced blocks (kind :: kinds) where
  level := by rw [List.map_cons, List.sum_cons, hkind, h.level]; rfl
  above before after heq := by
    cases before with
    | nil => exact Int.le_refl 0
    | cons k before =>
      obtain ⟨rfl, hkinds⟩ := List.cons.inj heq
      rw [List.map_cons, List.sum_cons, hkind, Int.zero_add]
      exact h.above before after hkinds

/-- A tag with what it encloses. -/
theorem Balanced.enclose {first : TokenKind} (hfirst : rise blocks first = 1)
    (hinside : Balanced blocks kinds) (hrest : Balanced blocks kinds') :
    Balanced blocks (first :: (kinds ++ .closingTag :: kinds')) where
  level := by
    rw [List.map_cons, List.map_append, List.map_cons, List.sum_cons, List.sum_append,
      List.sum_cons, hfirst, hinside.level, hrest.level]
    rfl
  above before after heq := by
    cases before with
    | nil => exact Int.le_refl 0
    | cons k before =>
      obtain ⟨rfl, hafter⟩ := List.cons.inj heq
      rw [List.map_cons, List.sum_cons, hfirst]
      rcases List.append_eq_append_iff.1 hafter with ⟨more, rfl, hmore⟩ | ⟨more, hkinds, -⟩
      · -- the start goes on after what is enclosed
        rw [List.map_append, List.sum_append, hinside.level]
        cases more with
        | nil => exact Int.zero_le_ofNat 1
        | cons k more =>
          obtain ⟨rfl, hkinds⟩ := List.cons.inj hmore
          have habove := hrest.above more after hkinds
          have hclosing : rise blocks .closingTag = -1 := rfl
          rw [List.map_cons, List.sum_cons, hclosing]
          omega
      · have habove := hinside.above before more hkinds
        omega

/-- **A closing tag closes one tag only.** -/
theorem Balanced.matching (h : Balanced blocks kinds) (h' : Balanced blocks kinds')
    (heq : kinds ++ .closingTag :: after = kinds' ++ .closingTag :: after') : kinds = kinds' := by
  have hshort {kinds kinds' more after after' : List TokenKind} (h : Balanced blocks kinds)
      (h' : Balanced blocks kinds') (hkinds : kinds' = kinds ++ more)
      (hmore : TokenKind.closingTag :: after = more ++ after') : more = [] := by
    cases more with
    | nil => rfl
    | cons k more =>
      obtain ⟨rfl, -⟩ := List.cons.inj hmore
      have habove := h'.above (kinds ++ [.closingTag]) more (by simp [hkinds])
      have hclosing : rise blocks .closingTag = -1 := rfl
      rw [List.map_append, List.sum_append, h.level, List.map_singleton, List.sum_singleton,
        hclosing] at habove
      omega
  rcases List.append_eq_append_iff.1 heq with ⟨more, hkinds, hmore⟩ | ⟨more, hkinds, hmore⟩
  · rw [hkinds, hshort h h' hkinds hmore, List.append_nil]
  · rw [hkinds, hshort h' h hkinds hmore, List.append_nil]

theorem IsLeafOf.rise_eq {t node : Token} (h : IsLeafOf t node)
    (hblock : t.kind = .blockVar → blocks = false) : rise blocks t.kind = 0 := by
  rcases h.kind with ⟨-, hnot⟩ | ⟨hkind, -⟩
  · unfold rise TokenKind.opens
    cases hkind : t.kind <;> rw [hkind] at hnot <;> first | rfl | exact absurd hnot (by decide)
  · rw [hkind, hblock hkind]
    rfl

theorem Opens.rise_eq {first tag : Token} (h : Opens blocks inParent first tag) :
    rise blocks first.kind = 1 := by
  have hmem : first.kind ∈ [.sectionTag, .invertedTag, .parentTag, .blockVar] := by
    rcases h.isTag.kind with ⟨-, hmem⟩ | ⟨hkind, -⟩
    · exact hmem
    · rw [hkind]
      decide
  have hblocks := h.blocks
  unfold rise TokenKind.opens
  cases hkind : first.kind <;> rw [hkind] at hmem hblocks <;>
    first | rfl | exact absurd hmem (by decide) | rw [hblocks rfl]; rfl

/-- **Tokens that grow into nodes are balanced.** -/
theorem Grown.balanced (h : Grown blocks inParent ts nodes) :
    Balanced blocks (ts.map (·.kind)) := by
  induction h with
  | nil => exact .nil
  | pass hpass _ ih =>
    refine ih.cons ?_
    dsimp only
    rcases hpass with hkind | hkind | hblank
    · rw [hkind]
      rfl
    · rw [hkind]
      rfl
    · rw [isBlank_kind hblank]
      rfl
  | leaf hleaf _ hblock _ ih => exact ih.cons (hleaf.rise_eq hblock)
  | tag hopens _ hcloses _ ihinside ih =>
    rw [List.map_cons, List.map_append, List.map_cons, hcloses]
    exact ihinside.enclose hopens.rise_eq ih

end Balance

/-! ## Nodes between their tags -/

/-- The kinds of nodes that enclose others. -/
def composite : TokenKind → Bool
  | .sectionTag | .invertedTag | .parentTag | .blockVar | .blockArg => true
  | _ => false

/-- **A node stands between two tags** and grows out of the tokens between
them. -/
inductive Enclosed (blocks : Bool) (first : Token) (inside : List Token) (last : Token) :
    Token → Prop
  | between {inParent : Bool} {tag : Token} {children : List Token} :
      Opens blocks inParent first tag → last.kind = .closingTag →
      Grown blocks (tag.kind = .parentTag) inside children →
      Enclosed blocks first inside last
        { tag with stop? := last.offset?, nodes? := some children }

section Enclosing

variable {blocks inParent : Bool} {t u node first tag last : Token} {ts inside nodes : List Token}

theorem IsLeafOf.eq_blockArg (h : IsLeafOf t node) (hnode : composite node.kind = true) :
    node.kind = .blockArg ∧ t.kind = .blockArg := by
  rcases h.kind with ⟨hsame, hnot⟩ | ⟨-, hescaped⟩
  · rw [hsame] at hnode ⊢
    cases hkind : t.kind <;> rw [hkind] at hnot hnode <;>
      first | exact ⟨rfl, rfl⟩ | exact absurd hnode (by decide) | exact absurd (by decide) hnot
  · rw [hescaped] at hnode
    cases hnode

theorem Opens.composite_eq (h : Opens blocks inParent first tag) : composite tag.kind = true := by
  rcases h.isTag.kind with ⟨hsame, hmem⟩ | ⟨-, hoverride, -⟩
  · rw [hsame]
    revert hmem
    cases first.kind <;> decide
  · rw [hoverride]
    rfl

theorem Opens.opens_eq (h : Opens blocks inParent first tag) : first.kind.opens true = true := by
  rcases h.isTag.kind with ⟨-, hmem⟩ | ⟨hblock, -⟩
  · revert hmem
    cases first.kind <;> decide
  · rw [hblock]
    rfl

/-- **Every node that encloses others has its tags among the tokens.** Tokens
that are overrides already would be leaves. -/
theorem Grown.exists_enclosed (h : Grown blocks inParent ts nodes) (hu : Within u nodes)
    (hkind : composite u.kind = true)
    (hargs : u.kind = .blockArg → ∀ t ∈ ts, t.kind ≠ .blockArg) :
    ∃ before first inside last after, ts = before ++ first :: (inside ++ last :: after) ∧
      Enclosed blocks first inside last u := by
  induction h with
  | nil => exact absurd hu Within.not_nil
  | @pass _ t _ _ _ _ ih =>
    obtain ⟨before, first, inside, last, after, rfl, henclosed⟩ :=
      ih hu fun harg => (List.forall_mem_cons.1 (hargs harg)).2
    exact ⟨t :: before, first, inside, last, after, rfl, henclosed⟩
  | @leaf _ t node _ _ hleaf hnodes _ _ ih =>
    rcases Within.cons_iff.1 hu with rfl | hu | hu
    · obtain ⟨harg, hown⟩ := hleaf.eq_blockArg hkind
      exact absurd hown (hargs harg t List.mem_cons_self)
    · rw [Token.nodes, hnodes] at hu
      exact absurd hu Within.not_nil
    · obtain ⟨before, first, inside, last, after, rfl, henclosed⟩ :=
        ih hu fun harg => (List.forall_mem_cons.1 (hargs harg)).2
      exact ⟨t :: before, first, inside, last, after, rfl, henclosed⟩
  | @tag _ opening tag closing tokens _ ts _ hopens hinside hcloses _ ihinside ih =>
    have hparts (harg : u.kind = .blockArg) :
        (∀ t ∈ tokens, t.kind ≠ .blockArg) ∧ ∀ t ∈ ts, t.kind ≠ .blockArg := by
      obtain ⟨-, hmore⟩ := List.forall_mem_cons.1 (hargs harg)
      obtain ⟨htokens, hrest⟩ := List.forall_mem_append.1 hmore
      exact ⟨htokens, (List.forall_mem_cons.1 hrest).2⟩
    rcases Within.cons_iff.1 hu with rfl | hu | hu
    · exact ⟨[], opening, tokens, closing, ts, rfl, .between hopens hcloses hinside⟩
    · obtain ⟨before, first, inside, last, after, rfl, henclosed⟩ :=
        ihinside hu fun harg => (hparts harg).1
      exact ⟨opening :: before, first, inside, last, after ++ closing :: ts, by simp, henclosed⟩
    · obtain ⟨before, first, inside, last, after, rfl, henclosed⟩ :=
        ih hu fun harg => (hparts harg).2
      exact ⟨opening :: (tokens ++ closing :: before), first, inside, last, after, by simp,
        henclosed⟩

end Enclosing

/-! ## Sections and their tags -/

/-- **A section has two tags** among the tokens, and grows out of those
between them. -/
structure Spanned (blocks : Bool) (node first : Token) (inside : List Token) (last : Token) :
    Prop where
  kind : node.kind = .sectionTag
  opens : first.kind = .sectionTag
  closes : last.kind = .closingTag
  offset : node.offset? = first.offset?
  delimiters : node.delimiters? = first.delimiters?
  stop : node.stop? = last.offset?
  grown : Grown blocks false inside node.nodes

section Sections

variable {blocks inParent : Bool} {t u node first tag last : Token}
variable {ts inside children nodes before after : List Token}

theorem IsLeafOf.not_section (h : IsLeafOf t node) :
    t.kind ≠ .sectionTag ∧ node.kind ≠ .sectionTag := by
  rcases h.kind with ⟨hsame, hnot⟩ | ⟨hblock, hescaped⟩
  · have hkind : t.kind ≠ .sectionTag := by
      rintro hkind
      rw [hkind] at hnot
      exact hnot (by decide)
    exact ⟨hkind, hsame ▸ hkind⟩
  · rw [hblock, hescaped]
    exact ⟨nofun, nofun⟩

theorem IsTagOf.section_iff (h : IsTagOf inParent first tag) :
    tag.kind = .sectionTag ↔ first.kind = .sectionTag := by
  rcases h.kind with ⟨hsame, -⟩ | ⟨hblock, hoverride, -⟩
  · rw [hsame]
  · rw [hblock, hoverride]
    exact ⟨nofun, nofun⟩

theorem Opens.spanned (h : Opens blocks inParent first tag) (hkind : tag.kind = .sectionTag)
    (hcloses : last.kind = .closingTag)
    (hinside : Grown blocks (tag.kind = .parentTag) inside children) :
    Spanned blocks { tag with stop? := last.offset?, nodes? := some children } first inside
      last where
  kind := hkind
  opens := h.isTag.section_iff.1 hkind
  closes := hcloses
  offset := h.isTag.shape.offset
  delimiters := h.isTag.shape.delimiters
  stop := rfl
  grown := by rwa [hkind, decide_eq_false (by decide)] at hinside

/-- **Every section among the nodes has its tags among the tokens.** -/
theorem Grown.exists_spanned (h : Grown blocks inParent ts nodes) (hu : Within u nodes)
    (hkind : u.kind = .sectionTag) :
    ∃ before first inside last after, ts = before ++ first :: (inside ++ last :: after) ∧
      Spanned blocks u first inside last := by
  obtain ⟨before, first, inside, last, after, rfl, henclosed⟩ :=
    h.exists_enclosed hu (by rw [hkind]; rfl) fun harg => absurd (hkind.symm.trans harg) nofun
  cases henclosed with
  | between hopens hcloses hinside =>
    exact ⟨before, first, inside, last, after, rfl, hopens.spanned hkind hcloses hinside⟩

/-- **Every section tag among the tokens opens a section** among the
nodes. -/
theorem Grown.exists_section (h : Grown blocks inParent ts nodes)
    (hts : ts = before ++ first :: after) (hfirst : first.kind = .sectionTag) :
    ∃ u inside last rest, Within u nodes ∧ after = inside ++ last :: rest ∧
      Spanned blocks u first inside last := by
  induction h generalizing before after with
  | nil => simp at hts
  | @pass _ t _ _ hpass _ ih =>
    cases before with
    | nil =>
      obtain ⟨rfl, -⟩ := List.cons.inj hts
      rcases hpass with hkind | hkind | hblank
      · rw [hkind] at hfirst
        cases hfirst
      · rw [hkind] at hfirst
        cases hfirst
      · rw [isBlank_kind hblank] at hfirst
        cases hfirst
    | cons v before => exact ih (List.cons.inj hts).2
  | leaf hleaf _ _ _ ih =>
    cases before with
    | nil =>
      obtain ⟨rfl, -⟩ := List.cons.inj hts
      exact absurd hfirst hleaf.not_section.1
    | cons v before =>
      obtain ⟨u, inside, last, rest, hu, heq, hspanned⟩ := ih (List.cons.inj hts).2
      exact ⟨u, inside, last, rest, Within.cons_iff.2 (.inr (.inr hu)), heq, hspanned⟩
  | @tag _ opening tag closing tokens _ ts _ hopens hinside hcloses _ ihinside ih =>
    cases before with
    | nil =>
      obtain ⟨rfl, rfl⟩ := List.cons.inj hts
      have hkind := hopens.isTag.section_iff.2 hfirst
      exact ⟨_, tokens, closing, ts, .here List.mem_cons_self, rfl,
        hopens.spanned hkind hcloses hinside⟩
    | cons v before =>
      have hclosing : first ≠ closing := by
        rintro rfl
        rw [hfirst] at hcloses
        cases hcloses
      rcases List.append_eq_append_iff.1 (List.cons.inj hts).2 with
        ⟨more, rfl, hmore⟩ | ⟨more, rfl, hmore⟩
      · -- the tag stands after what this one encloses
        cases more with
        | nil => exact absurd (List.cons.inj hmore).1.symm hclosing
        | cons w more =>
          obtain ⟨u, inside, last, rest, hu, heq, hspanned⟩ := ih (List.cons.inj hmore).2
          exact ⟨u, inside, last, rest, Within.cons_iff.2 (.inr (.inr hu)), heq, hspanned⟩
      · cases more with
        | nil => exact absurd (List.cons.inj hmore).1 hclosing
        | cons w more =>
          obtain ⟨rfl, rfl⟩ := List.cons.inj hmore
          obtain ⟨u, inside, last, rest, hu, rfl, hspanned⟩ := ihinside rfl
          exact ⟨u, inside, last, rest ++ closing :: ts, Within.cons_iff.2 (.inr (.inl hu)),
            by simp, hspanned⟩

end Sections

/-! ## Tokens as they stand -/

section Raw

variable {blocks inParent : Bool} {ts nodes : List Token}

/-- Pragmas that come first grow into nodes that come first. -/
theorem Grown.exists_after_pragmas {ps : List Token} (hps : ∀ t ∈ ps, t.kind = .pragma)
    (h : Grown blocks inParent (ps ++ ts) nodes) :
    ∃ leaves others, nodes = leaves ++ others ∧
      (∀ t ∈ leaves, t.kind = .pragma ∧ t.nodes? = none) ∧ Grown blocks inParent ts others := by
  induction ps generalizing nodes with
  | nil => exact ⟨[], nodes, rfl, nofun, h⟩
  | cons p ps ih =>
    obtain ⟨hp, hps⟩ := List.forall_mem_cons.1 hps
    generalize hall : p :: ps ++ ts = all at h
    cases h with
    | nil => cases hall
    | pass _ hrest =>
      obtain ⟨-, rfl⟩ := List.cons.inj hall
      exact ih hps hrest
    | @leaf _ _ node _ _ hleaf hnodes _ hrest =>
      obtain ⟨rfl, rfl⟩ := List.cons.inj hall
      obtain ⟨leaves, others, rfl, hleaves, hothers⟩ := ih hps hrest
      refine ⟨node :: leaves, others, rfl, ?_, hothers⟩
      have hkind : node.kind = .pragma := hleaf.shape.pragma_iff.2 hp
      exact List.forall_mem_cons.2 ⟨⟨hkind, hnodes⟩, hleaves⟩
    | tag hopens _ _ _ =>
      obtain ⟨rfl, -⟩ := List.cons.inj hall
      have hrise := hopens.rise_eq
      rw [hp] at hrise
      cases hrise

theorem Grown.of_filter_eq_nil (h : ts.filter (fun t => t.kind ≠ .pragma) = []) :
    Grown blocks inParent ts [] := by
  have hall := List.filter_eq_nil_iff.1 h
  clear h
  induction ts with
  | nil => exact .nil
  | cons t ts ih =>
    obtain ⟨ht, hts⟩ := List.forall_mem_cons.1 hall
    exact .pass (.inr (.inl (by simpa using ht))) (ih hts)

/-- **Pragmas may stand anywhere** among the tokens: they leave no node
there. -/
theorem Grown.of_filter (h : Grown blocks inParent ts nodes) {raw : List Token}
    (hraw : raw.filter (fun t => t.kind ≠ .pragma) = ts) : Grown blocks inParent raw nodes := by
  induction h generalizing raw with
  | nil => exact .of_filter_eq_nil hraw
  | pass hkind _ ih =>
    obtain ⟨skipped, more, rfl, hskipped, hmore⟩ := exists_of_filter_eq_cons hraw
    exact (of_filter_eq_nil hskipped).append (.pass hkind (ih hmore))
  | leaf hleaf hnodes hblock _ ih =>
    obtain ⟨skipped, more, rfl, hskipped, hmore⟩ := exists_of_filter_eq_cons hraw
    exact (of_filter_eq_nil hskipped).append (.leaf hleaf hnodes hblock (ih hmore))
  | tag hopens _ hcloses _ ihinside ih =>
    obtain ⟨skipped, more, rfl, hskipped, hmore⟩ := exists_of_filter_eq_cons hraw
    obtain ⟨inside, rest, rfl, hinside, hrest⟩ := exists_of_filter_eq hmore
    exact (of_filter_eq_nil hskipped).append (.tag hopens (ihinside hinside) hcloses (ih hrest))

/-- **A tree grows out of the tokens as they stand in the text**, pragmas
apart. -/
theorem exists_grown_raw {pragmas : List Pragma} {raw : List Token} {tree : Tree}
    (h : ofTokens pragmas (Scan.hoistPragmas raw) = .ok tree) (hfresh : ∀ t ∈ raw, t.Fresh) :
    ∃ leaves others, tree.nodes = leaves ++ others ∧
      (∀ t ∈ leaves, t.kind = .pragma ∧ t.nodes? = none) ∧
      Grown (tree.pragmas.has .blocks) false raw others := by
  have hgrown := grown_ofTokens h (Scan.pragmasFirst_hoistPragmas raw)
    fun t ht => hfresh t (Scan.mem_of_mem_hoistPragmas ht)
  rw [Scan.hoistPragmas] at hgrown
  obtain ⟨leaves, others, hnodes, hleaves, hothers⟩ := hgrown.exists_after_pragmas fun t ht =>
    of_decide_eq_true (List.mem_filter.1 (List.mem_reverse.1 ht)).2
  exact ⟨leaves, others, hnodes, hleaves, hothers.of_filter rfl⟩

end Raw

end Tree

end Mustache
