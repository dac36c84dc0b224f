import Mustache.Proofs.Nodes
import Mustache.Proofs.Walk
/-!
# Mustache — parsed templates compile

The compiler refuses a node in three cases: a closing tag, a set-delimiter
tag, and an override outside a parent tag. The parser leaves none of these
in a tree (`fits_ofTokens`), so every parsed template compiles
(`exists_compile`), whatever its source and the digest.
-/

namespace Mustache

namespace Token

/-- The compiler takes the node, and all inside it: no closing tag and no
set-delimiter tag, and an override only directly inside a parent tag. -/
inductive Fits : Bool → Token → Prop
  | intro {inParent : Bool} {t : Token} :
      t.kind ≠ .closingTag → t.kind ≠ .delimiterTag → (t.kind = .blockArg → inParent = true) →
      (∀ node ∈ t.nodes, Fits (t.kind = .parentTag) node) → Fits inParent t

/-- What fits has only nodes inside that fit. -/
theorem exists_fits_of_within {u : Token} {nodes : List Token} (h : Within u nodes)
    (hnodes : ∀ t ∈ nodes, ∃ inParent, Fits inParent t) : ∃ inParent, Fits inParent u := by
  induction h with
  | here hu => exact hnodes u hu
  | inside ht _ ih =>
    obtain ⟨_, ⟨_, _, _, hinside⟩⟩ := hnodes _ ht
    exact ih fun node hnode => ⟨_, hinside node hnode⟩

end Token

/-! ## The compiler -/

namespace Compile

open Token (Fits)

variable {digest : String → String} {source : String}

/-- A walk with a result, from every state. -/
def Succeeds {α : Type} (walk : Walk α) : Prop := ∀ s, ∃ a s', walk.run s = .ok (a, s')

namespace Succeeds

variable {α β : Type}

theorem pure (a : α) : Succeeds (Pure.pure a : Walk α) := fun s => ⟨a, s, rfl⟩

theorem bind {first : Walk α} {next : α → Walk β} (h : Succeeds first)
    (hnext : ∀ a, Succeeds (next a)) : Succeeds (first >>= next) := by
  intro s
  obtain ⟨a, s₁, hfirst⟩ := h s
  obtain ⟨b, s₂, hsecond⟩ := hnext a s₁
  refine ⟨b, s₂, ?_⟩
  rw [StateT.run_bind, hfirst]
  exact hsecond

theorem get : Succeeds (MonadState.get : Walk State) := fun s => ⟨s, s, rfl⟩

theorem change (f : State → State) : Succeeds (modify f : Walk PUnit) := fun s => ⟨⟨⟩, f s, rfl⟩

end Succeeds

theorem succeeds_takeLineStart : Succeeds takeLineStart :=
  .bind .get fun _ => .bind (.change _) fun _ => .pure _

theorem succeeds_variableInstr (t : Token) (escape : Bool) : Succeeds (variableInstr t escape) :=
  .bind .get fun _ => .bind succeeds_takeLineStart fun _ => .pure _

theorem succeeds_walk {ts : List Token} (h : ∀ t ∈ ts, Succeeds (walkNode digest source t)) :
    Succeeds (walk digest source ts) := by
  induction ts with
  | nil => rw [walk]; exact .pure []
  | cons t ts ih =>
    obtain ⟨ht, hts⟩ := List.forall_mem_cons.1 h
    rw [walk]
    exact .bind ht fun _ => .bind (ih hts) fun _ => .pure _

theorem succeeds_walkOverrides {ts : List Token}
    (h : ∀ t ∈ ts, Succeeds (walkOverride digest source t)) :
    Succeeds (walkOverrides digest source ts) := by
  induction ts with
  | nil => rw [walkOverrides]; exact .pure []
  | cons t ts ih =>
    obtain ⟨ht, hts⟩ := List.forall_mem_cons.1 h
    rw [walkOverrides]
    exact .bind ht fun _ => .bind (ih hts) fun _ => .pure _

/-- A node that fits is walked as a node, unless it is an override, and as
an override. -/
theorem succeeds_of_fits {inParent : Bool} {t : Token} (h : Fits inParent t) :
    (t.kind ≠ .blockArg → Succeeds (walkNode digest source t)) ∧
      Succeeds (walkOverride digest source t) := by
  induction h with
  | @intro inParent t hclosing hdelimiter hoverride hnodes ih =>
    -- inside a parent tag there may be overrides, so its nodes are walked as overrides only
    have hinside : t.kind ≠ .parentTag → Succeeds (walkInside digest source t.nodes?) := by
      intro hparent
      unfold Token.nodes at hnodes ih
      cases hnodes? : t.nodes? with
      | none => rw [walkInside]; exact .pure []
      | some ts =>
        rw [hnodes?] at hnodes ih
        rw [walkInside]
        refine succeeds_walk fun node hnode => (ih node hnode).1 fun hkind => ?_
        have hfits : Fits (decide (t.kind = .parentTag)) node := hnodes node hnode
        cases hfits with
        | intro _ _ hparent' _ => exact hparent (of_decide_eq_true (hparent' hkind))
    have hoverrides : Succeeds (walkOverridesInside digest source t.nodes?) := by
      unfold Token.nodes at ih
      cases hnodes? : t.nodes? with
      | none => rw [walkOverridesInside]; exact .pure []
      | some ts =>
        rw [hnodes?] at ih
        rw [walkOverridesInside]
        exact succeeds_walkOverrides fun node hnode => (ih node hnode).2
    obtain ⟨kind, _, _, _, _, _, _, _, _, _, nodes?⟩ := t
    dsimp only at hclosing hdelimiter hinside hoverrides ⊢
    constructor
    · intro hblock
      cases kind <;> rw [walkNode]
      case sectionTag =>
        refine .bind .get fun s => ?_
        dsimp only
        split
        · exact .bind (hinside nofun) fun _ => .bind (.change _) fun _ =>
            .bind .get fun _ => .pure _
        · exact .bind .get fun _ => .pure _
      case invertedTag =>
        exact .bind .get fun _ => .bind (hinside nofun) fun _ => .pure _
      case parentTag => exact .bind hoverrides fun _ => .bind .get fun _ => .pure _
      case blockVar => exact .bind (hinside nofun) fun _ => .pure _
      case partialTag => exact .bind .get fun _ => .pure _
      case pragma => exact .bind (.change _) fun _ => .pure _
      case comment => exact .pure _
      case escaped | tripleBrace | ampersand =>
        exact .bind (succeeds_variableInstr _ _) fun _ => .pure _
      case text => exact .bind succeeds_takeLineStart fun _ => .bind (.change _) fun _ => .pure _
      case closingTag => exact absurd rfl hclosing
      case delimiterTag => exact absurd rfl hdelimiter
      case blockArg => exact absurd rfl hblock
    · rw [walkOverride]
      split
      · next hkind =>
        exact .bind (hinside (by rw [hkind]; nofun)) fun _ => .bind (.change _) fun _ => .pure _
      · exact .pure _

end Compile

/-! ## The parser -/

namespace Tree

open Token (Fits)

/-- A token as the scanner gives it: it encloses nothing and is no
override. -/
def IsRead (t : Token) : Prop := t.nodes? = none ∧ t.kind ≠ .blockArg

/-- The open tags fit, and the siblings before each. -/
def TagsFit : List OpenTag → Prop
  | [] => True
  | o :: os =>
    (o.tag.kind ≠ .closingTag ∧ o.tag.kind ≠ .delimiterTag ∧
      (o.tag.kind = .blockArg → insideParent os = true)) ∧
    (∀ t ∈ o.before, Fits (insideParent os) t) ∧ TagsFit os

/-- A tree under construction fits. -/
def StateFits (l : List Token) (os : List OpenTag) : Prop :=
  (∀ t ∈ l, Fits (insideParent os) t) ∧ TagsFit os

/-- A node without nodes inside. -/
theorem fits_leaf {inParent : Bool} {t : Token} (hnodes : t.nodes? = none)
    (hkind : t.kind ∉ [.closingTag, .delimiterTag, .blockArg]) : Fits inParent t := by
  simp only [List.mem_cons, List.not_mem_nil, or_false, not_or] at hkind
  obtain ⟨hclosing, hdelimiter, hoverride⟩ := hkind
  refine .intro hclosing hdelimiter (fun h => absurd h hoverride) ?_
  rw [Token.nodes, hnodes]
  exact List.forall_mem_nil _

/-- **A turn keeps what is built fit.** -/
theorem StateFits.turn {t : Token} {l l' : List Token} {os os' : List OpenTag}
    (h : StateFits l os) (hturn : Turn t l os l' os') (ht : IsRead t) : StateFits l' os' := by
  obtain ⟨hl, hos⟩ := h
  cases hturn with
  | pass => exact ⟨hl, hos⟩
  | leaf hleaf =>
    refine ⟨List.forall_mem_cons.2 ⟨fits_leaf (hleaf.nodes.trans ht.1) ?_, hl⟩, hos⟩
    rcases hleaf.kind with ⟨hsame, hkind⟩ | ⟨-, hkind⟩
    · simp only [List.mem_cons, List.not_mem_nil, or_false, not_or] at hkind ⊢
      rw [hsame]
      exact ⟨hkind.2.2.2.2.1, hkind.2.2.2.2.2, ht.2⟩
    · rw [hkind]
      decide
  | enter htag =>
    refine ⟨nofun, ⟨?_, hl, hos⟩⟩
    rcases htag.kind with ⟨hsame, hkind⟩ | ⟨-, hkind, hinside⟩
    · dsimp only
      rw [hsame]
      simp only [List.mem_cons, List.not_mem_nil, or_false] at hkind
      rcases hkind with hkind | hkind | hkind | hkind <;> rw [hkind] <;>
        exact ⟨nofun, nofun, nofun⟩
    · dsimp only
      rw [hkind]
      exact ⟨nofun, nofun, fun _ => hinside⟩
  | close _ =>
    obtain ⟨⟨hclosing, hdelimiter, hoverride⟩, hbefore, hos⟩ := hos
    refine ⟨List.forall_mem_cons.2 ⟨.intro hclosing hdelimiter hoverride ?_, hbefore⟩, hos⟩
    exact fun node hnode => hl node (List.mem_reverse.1 hnode)

/-- **The nodes of a tree fit**, if the tokens are as they are read. -/
theorem fits_ofTokens {pragmas : List Pragma} {ts : List Token} {tree : Tree}
    (h : ofTokens pragmas ts = .ok tree) (hts : ∀ t ∈ ts, IsRead t) :
    ∀ t ∈ tree.nodes, Fits false t := by
  obtain ⟨s, hbuild, hopened, rfl⟩ := ofTokens_eq_ok_iff.1 h
  have hkept := build_induct
    (I := fun s ts => StateFits s.siblings s.opened ∧ ∀ t ∈ ts, IsRead t)
    (fun s t rest s₁ drops hstep hI => ?_) hbuild ⟨⟨nofun, trivial⟩, hts⟩
  · obtain ⟨⟨hfits, -⟩, -⟩ := hkept
    rw [hopened] at hfits
    exact fun t ht => hfits t (List.mem_reverse.1 ht)
  · obtain ⟨⟨hl, hos⟩, hrest⟩ := hI
    obtain ⟨ht, hrest⟩ := List.forall_mem_cons.1 hrest
    obtain ⟨l, hleft, hturn⟩ := turn_of_step hstep
    have hfits := hleft.forall_mem hl
    exact ⟨StateFits.turn ⟨hfits, hos⟩ hturn ht, fun u hu => hrest u (mem_of_mem_after hu)⟩

end Tree

namespace Scan

theorem readToken_ne_override {start : Cursor} {cs : List Char} {step : Step}
    (h : readToken start cs = .ok step) : step.token.kind ≠ .blockArg := by
  unfold readToken at h
  split at h
  · rcases readTag_cases h with ⟨kind, offset, cs', -, hoverride, h⟩ | ⟨offset, cs', h⟩ |
      ⟨offset, cs', h⟩
    · rw [readNamed_kind h]
      exact hoverride
    · rw [readDelimiters_kind h]
      decide
    · rw [readPragma_kind h]
      decide
  · cases h
    exact (TokenKind.noConfusion ·)

theorem isRead_scan {delimiters : Delimiters} {source : String} {ts : List Token}
    (h : Token.scan delimiters source = .ok ts) : ∀ t ∈ ts, Tree.IsRead t := by
  have hkinds : ∀ t ∈ ts, t.kind ≠ .blockArg := by
    obtain ⟨raw, hraw, rfl⟩ := exists_of_scan h
    have hall := forall_tokensFrom (P := fun t => t.kind ≠ .blockArg) (I := fun _ => True)
      (fun _ _ _ hread _ => ⟨readToken_ne_override hread, trivial⟩) hraw trivial
    exact fun t ht => hall t (mem_of_mem_hoistPragmas ht)
  exact fun t ht => ⟨nodes_scan h t ht, hkinds t ht⟩

end Scan

/-- Whether a template parses, and to what, can be found out. -/
theorem Tree.exists_parsed_iff {delimiters : Delimiters} {source : String} {pragmas : List Pragma}
    (P : List Token → Tree → Prop) [∀ ts tree, Decidable (P ts tree)] :
    ((Token.scan delimiters source).toOption.bind fun ts =>
        (ofTokens pragmas ts).toOption.map fun tree => decide (P ts tree)) = some true ↔
      ∃ ts tree, Token.scan delimiters source = .ok ts ∧ ofTokens pragmas ts = .ok tree ∧
        P ts tree := by
  constructor
  · intro h
    obtain ⟨ts, hscan, h⟩ := exists_of_toOption_bind h
    obtain ⟨tree, htree, h⟩ := exists_of_toOption_map h
    exact ⟨ts, tree, hscan, htree, of_decide_eq_true h⟩
  · rintro ⟨ts, tree, hscan, htree, h⟩
    rw [hscan]
    change (ofTokens pragmas ts).toOption.map _ = _
    rw [htree]
    exact congrArg some (decide_eq_true h)

/-- **A parsed template compiles.** -/
theorem Program.exists_compile {delimiters : Delimiters} {text source name : String}
    {defaults pragmas : List Pragma} {ts : List Token} {tree : Tree}
    (hscan : Token.scan delimiters text = .ok ts) (htree : Tree.ofTokens pragmas ts = .ok tree)
    (digest : String → String) (settings : CompileSettings) :
    ∃ p, compile digest defaults settings name source tree.nodes = .ok p := by
  have hfits := Tree.fits_ofTokens htree (Scan.isRead_scan hscan)
  have hwalk : Compile.Succeeds (Compile.walk digest source tree.nodes) := by
    refine Compile.succeeds_walk fun t ht =>
      (Compile.succeeds_of_fits (hfits t ht)).1 fun hkind => ?_
    cases hfits t ht with
    | intro _ _ hoverride _ => cases hoverride hkind
  obtain ⟨body, s, hrun⟩ := hwalk ⟨PragmaSet.ofPragmas defaults, [], [], true⟩
  unfold compile
  rw [hrun]
  exact ⟨_, rfl⟩

end Mustache
