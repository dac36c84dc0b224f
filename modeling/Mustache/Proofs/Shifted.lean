import Mustache.Proofs.Beside
import Mustache.Proofs.LineStarts
/-!
# Mustache — nodes behind white space

Two parsers side by side, one over a template and one over the same template with
white space in front of its lines. If each line begins with what it writes or is a
tag alone (`linesHeaded`), they build the same nodes, and the second one has the
white space in front of what begins a line (`Shifted`): in a text, or before a
variable as a text of its own. Where a tag has the line to itself, the white space
goes with the tag.

`InStep` says how far both have come on their line, which each step keeps
(`InStep.step`), and so both come to their ends (`exists_ofTokens_indented`).
-/

namespace Mustache

namespace TokenKind

/-- Text and variables leave something on the line where they stand. -/
def writes : TokenKind → Bool
  | .text | .escaped | .tripleBrace | .ampersand => true
  | _ => false

/-- What text, variables, comments and sections of both kinds are made of. -/
def isElementary : TokenKind → Bool
  | .comment | .sectionTag | .invertedTag | .closingTag => true
  | kind => kind.writes

end TokenKind

namespace Tree

open Scan (Rows Indented)

/-! ## Lines that begin with what they write -/

/-- A text or a variable comes first, comments apart. -/
def headed : List Token → Bool
  | [] => false
  | t :: ts => t.kind.writes || t.kind = .comment && headed ts

/-- A tag has the rest of the line to itself. -/
def alone (t : Token) (rest : List Token) : Bool :=
  t.kind.standsAlone false && (follow? (some t.line) rest).isSome

/-- **Every line begins with what it writes**, comments apart, or is a tag
alone. The flag says whether a line begins with the first token. -/
def linesHeaded : (begins : Bool) → List Token → Bool
  | _, [] => true
  | begins, t :: ts => (!begins || alone t ts || headed (t :: ts)) && linesHeaded t.endsLine ts

/-! ## Nodes and the same nodes behind white space -/

/-- Where a line stands: its white space is still ahead, it is there with
comments only behind it, or a text or variable stands behind it. -/
inductive Margin where
  | ahead
  | laid
  | past
  deriving DecidableEq

/-- **Nodes, and the same behind white space where lines begin**. Sections are
related besides. -/
inductive Shifted (w : String) (S : Token → Token → Prop) :
    Margin → List Token → List Token → Margin → Prop
  | nil {m : Margin} : Shifted w S m [] [] m
  | margin {line : Nat} {m : Margin} {nodes nodes' : List Token} :
      Shifted w S .laid nodes nodes' m → Shifted w S .ahead nodes (.ofText w line :: nodes') m
  | text {m m' : Margin} {t t' : Token} {nodes nodes' : List Token} :
      t.kind = .text → t'.kind = .text → t'.text = (if m = .ahead then w else "") ++ t.text →
      Shifted w S (if t.endsLine then .ahead else .past) nodes nodes' m' →
      Shifted w S m (t :: nodes) (t' :: nodes') m'
  | written {m m' : Margin} {t t' : Token} {nodes nodes' : List Token} :
      t.kind ∈ [.escaped, .tripleBrace, .ampersand] → t.Moved t' → m ≠ .ahead →
      Shifted w S .past nodes nodes' m' → Shifted w S m (t :: nodes) (t' :: nodes') m'
  | comment {m m' : Margin} {t t' : Token} {nodes nodes' : List Token} :
      t.kind = .comment → t'.kind = .comment → Shifted w S m nodes nodes' m' →
      Shifted w S m (t :: nodes) (t' :: nodes') m'
  | tag {m mid m' : Margin} {t t' : Token} {nodes nodes' : List Token} :
      t.kind = .sectionTag ∨ t.kind = .invertedTag → t'.kind = t.kind → t'.name = t.name →
      t'.filters = t.filters → (t.kind = .sectionTag → S t t') → m ≠ .laid → mid ≠ .laid →
      Shifted w S m t.nodes t'.nodes mid → Shifted w S mid nodes nodes' m' →
      Shifted w S m (t :: nodes) (t' :: nodes') m'

section Nodes

variable {w : String} {S : Token → Token → Prop} {m mid m' : Margin}
variable {nodes nodes' more more' : List Token}

theorem Shifted.append (h : Shifted w S m nodes nodes' mid)
    (hmore : Shifted w S mid more more' m') :
    Shifted w S m (nodes ++ more) (nodes' ++ more') m' := by
  induction h with
  | nil => exact hmore
  | margin _ ih => exact .margin (ih hmore)
  | text hkind hkind' htext _ ih => exact .text hkind hkind' htext (ih hmore)
  | written hkind hmoved hm _ ih => exact .written hkind hmoved hm (ih hmore)
  | comment hkind hkind' _ ih => exact .comment hkind hkind' (ih hmore)
  | tag hkind hkind' hname hfilters hS hm hmid hinside _ _ ih =>
    exact .tag hkind hkind' hname hfilters hS hm hmid hinside (ih hmore)

/-- More may be said of the sections, from what holds of all nodes. -/
theorem Shifted.mono {S' : Token → Token → Prop} {P P' : Token → Prop}
    (h : Shifted w S m nodes nodes' m') (hnodes : Token.EverywhereIn P nodes)
    (hnodes' : Token.EverywhereIn P' nodes')
    (hS : ∀ t t', S t t' → t.kind = .sectionTag → t'.kind = .sectionTag → P t → P' t' →
      S' t t') : Shifted w S' m nodes nodes' m' := by
  induction h with
  | nil => exact .nil
  | margin _ ih => exact .margin (ih hnodes hnodes'.2)
  | text hkind hkind' htext _ ih => exact .text hkind hkind' htext (ih hnodes.2 hnodes'.2)
  | written hkind hmoved hm _ ih => exact .written hkind hmoved hm (ih hnodes.2 hnodes'.2)
  | comment hkind hkind' _ ih => exact .comment hkind hkind' (ih hnodes.2 hnodes'.2)
  | tag hkind hkind' hname hfilters hsection hm hmid _ _ ihinside ih =>
    refine .tag hkind hkind' hname hfilters (fun htag => ?_) hm hmid
      (ihinside hnodes.1.nodes hnodes'.1.nodes) (ih hnodes.2 hnodes'.2)
    exact hS _ _ (hsection htag) htag (hkind'.trans htag) hnodes.1.self hnodes'.1.self

end Nodes

/-! ## The parsers of both templates -/

/-- Tags that open a section in both templates, and the tokens they are read
from. -/
structure OpenedBy (first first' tag tag' : Token) : Prop where
  kind : tag.kind = .sectionTag ∨ tag.kind = .invertedTag
  same : first.kind = tag.kind
  moved : first.Moved first'
  line : first'.line = first.line
  tags : tag.Moved tag'
  offset : tag.offset? = first.offset?
  offset' : tag'.offset? = first'.offset?
  delimiters : tag.delimiters? = first.delimiters?

/-- **The trees so far, with the tags that are open**, and the tokens they are
made of. -/
inductive ShiftedIn (w : List Char) (S : Token → Token → Prop) :
    Rows → Bool → Margin → List Token → List OpenTag → List Token → List OpenTag → Prop
  | outside {r : Rows} {begins : Bool} {m : Margin} {l l' : List Token} :
      r.Indented w true begins → Shifted (String.ofList w) S .ahead l.reverse l'.reverse m →
      ShiftedIn w S r begins m l [] l' []
  | inside {r inside : Rows} {starts begins : Bool} {m₀ m : Margin} {segment : List Char}
      {first first' : Token} {o o' : OpenTag} {os os' : List OpenTag} {l l' : List Token} :
      ShiftedIn w S r starts m₀ o.before os o'.before os' → m₀ ≠ .laid →
      OpenedBy first first' o.tag o'.tag → inside.Indented w false begins →
      Shifted (String.ofList w) S m₀ l.reverse l'.reverse m →
      ShiftedIn w S (r.append ((Rows.tag w starts segment first first').append inside)) begins m
        l (o :: os) l' (o' :: os')

section Stacks

variable {w : List Char} {S : Token → Token → Prop} {r q : Rows} {begins ends : Bool}
variable {m mid : Margin} {l l' nodes nodes' : List Token} {os os' : List OpenTag}

/-- Tokens are read and nodes are added. -/
theorem ShiftedIn.append (h : ShiftedIn w S r begins m l os l' os')
    (hrows : q.Indented w begins ends) (hnodes : Shifted (String.ofList w) S m nodes nodes' mid) :
    ShiftedIn w S (r.append q) ends mid (nodes.reverse ++ l) os (nodes'.reverse ++ l') os' := by
  cases h with
  | outside hr hl =>
    refine .outside (hr.append hrows) ?_
    rw [List.reverse_append, List.reverse_append, List.reverse_reverse, List.reverse_reverse]
    exact hl.append hnodes
  | inside hbefore hm hopened hinside hl =>
    rw [Rows.append_assoc, Rows.append_assoc]
    refine .inside hbefore hm hopened (hinside.append hrows) ?_
    rw [List.reverse_append, List.reverse_append, List.reverse_reverse, List.reverse_reverse]
    exact hl.append hnodes

/-- All the tokens so far. -/
theorem ShiftedIn.indented (h : ShiftedIn w S r begins m l os l' os') :
    r.Indented w true begins := by
  induction h with
  | outside hr _ => exact hr
  | inside _ _ hopened hinside _ ih =>
    refine ih.append (.append (Scan.Rows.indented_tag ?_ hopened.moved hopened.line) hinside)
    rw [hopened.same]
    rcases hopened.kind with hkind | hkind <;> rw [hkind] <;> nofun

end Stacks

/-! ## What both parsers read -/

/-- **Both parsers have come to the same place**: what they have read and built,
what is ahead of them, and where they stand. -/
structure Alongside (w : List Char) (source source' : String) (n : Nat) (begins : Bool)
    (m : Margin) (l l' : List Token) (s s' : State) (rest rest' : List Token) : Prop where
  rows : ∃ (r more : Rows) (ends : Bool), (r.append more).Laid source source' ∧
    more.Indented w begins ends ∧ more.tokens = rest ∧ more.tokens' = rest' ∧
    ShiftedIn w (IndentedSection w source source') r begins m l s.opened l' s'.opened
  lines : OnLines n rest
  headed : linesHeaded begins rest = true
  plain : ∀ t ∈ rest, t.kind.isElementary = true
  pragmas : s'.pragmas = s.pragmas

/-- **Both stand before a tag.** -/
structure BeforeTag (w : List Char) (source source' : String) (n : Nat) (begins : Bool)
    (m : Margin) (l l' : List Token) (s s' : State) (t t' : Token) (rest rest' : List Token) :
    Prop where
  rows : ∃ (r more : Rows) (segment : List Char) (ends : Bool),
    (r.append ((Rows.tag w begins segment t t').append more)).Laid source source' ∧
    more.Indented w false ends ∧ more.tokens = rest ∧ more.tokens' = rest' ∧
    ShiftedIn w (IndentedSection w source source') r begins m l s.opened l' s'.opened
  kind : t.kind ≠ .text
  moved : t.Moved t'
  line : t.line = n
  line' : t'.line = n
  lines : OnLines n rest
  headed : linesHeaded false rest = true
  plain : ∀ t ∈ rest, t.kind.isElementary = true
  pragmas : s'.pragmas = s.pragmas

section Reading

variable {w : List Char} {source source' : String} {n : Nat} {begins : Bool} {m mid : Margin}
variable {l l' nodes nodes' rest rest' : List Token} {s s' s₁ s₁' : State} {t t' u u' : Token}

/-- Both read a piece of text, and add some nodes. -/
theorem Alongside.text (h : Alongside w source source' n begins m l l' s s' (t :: rest) rest')
    (hkind : t.kind = .text) :
    ∃ segment more', t = .ofText (String.ofList segment) n ∧
      rest' = .ofText (String.ofList ((if begins then w else []) ++ segment)) n :: more' ∧
      ∀ {nodes nodes' : List Token} {mid : Margin} (s₁ s₁' : State),
        Shifted (String.ofList w) (IndentedSection w source source') m nodes nodes' mid →
        s₁.opened = s.opened → s₁'.opened = s'.opened → s₁'.pragmas = s₁.pragmas →
        Alongside w source source' (if t.endsLine then n + 1 else n) t.endsLine mid
          (nodes.reverse ++ l) (nodes'.reverse ++ l') s₁ s₁' rest more' := by
  obtain ⟨⟨r, more, ends, hlaid, hmore, hrest, rfl, hin⟩, hlines, hheaded, hplain, -⟩ := h
  obtain ⟨segment, line, q, rfl, rfl, hq, rfl⟩ := hmore.exists_text hrest hkind
  obtain ⟨-, rfl, hlines⟩ := hlines
  refine ⟨segment, q.tokens', rfl, rfl, fun s₁ s₁' hnodes hopened hopened' hpragmas => ?_⟩
  refine ⟨⟨r.append (.text w begins segment line), q, ends, ?_, hq, rfl, rfl, ?_⟩, hlines, ?_,
    (List.forall_mem_cons.1 hplain).2, hpragmas⟩
  · rwa [Rows.append_assoc]
  · rw [hopened, hopened']
    exact hin.append (Scan.Rows.indented_text segment line) hnodes
  · exact (Bool.and_eq_true_iff.1 hheaded).2

/-- Nodes are added before anything is read. -/
theorem Alongside.add (h : Alongside w source source' n begins m l l' s s' rest rest')
    (hnodes : Shifted (String.ofList w) (IndentedSection w source source') m nodes nodes' mid) :
    Alongside w source source' n begins mid (nodes.reverse ++ l) (nodes'.reverse ++ l') s s' rest
      rest' := by
  obtain ⟨r, more, ends, hlaid, hmore, hrest, hrest', hin⟩ := h.rows
  have hin := hin.append (q := ⟨[], [], [], []⟩) .nil hnodes
  rw [Rows.append_nil] at hin
  exact { h with rows := ⟨r, more, ends, hlaid, hmore, hrest, hrest', hin⟩ }

/-- Both come to a tag. -/
theorem Alongside.tag (h : Alongside w source source' n begins m l l' s s' (t :: rest) rest')
    (hkind : t.kind ≠ .text) :
    ∃ t' more', rest' = Scan.marginToken w n begins ++ t' :: more' ∧
      ∀ {s₁ s₁' : State}, s₁.opened = s.opened → s₁'.opened = s'.opened →
        s₁'.pragmas = s₁.pragmas →
        BeforeTag w source source' n begins m l l' s₁ s₁' t t' rest more' := by
  obtain ⟨⟨r, more, ends, hlaid, hmore, hrest, rfl, hin⟩, hlines, hheaded, hplain, -⟩ := h
  obtain ⟨segment, t', q, rfl, hmoved, hline, hq, rfl⟩ := hmore.exists_tag hrest hkind
  obtain ⟨hfresh, rfl, hlines⟩ := hlines
  rw [hfresh.endsLine_of_tag hkind] at hlines
  obtain ⟨-, hheaded⟩ := Bool.and_eq_true_iff.1 hheaded
  rw [hfresh.endsLine_of_tag hkind] at hheaded
  refine ⟨t', q.tokens', List.append_assoc _ _ _, fun hopened hopened' hpragmas => ?_⟩
  rw [← hopened, ← hopened'] at hin
  exact ⟨⟨r, q, segment, ends, hlaid, hq, rfl, rfl, hin⟩, hkind, hmoved, rfl, hline, hlines,
    hheaded, (List.forall_mem_cons.1 hplain).2, hpragmas⟩

namespace BeforeTag

/-- What follows the tag fits in the one template where it does in the other. -/
theorem follow?_eq (h : BeforeTag w source source' n begins m l l' s s' t t' rest rest') :
    follow? (some n) rest' = follow? (some n) rest := by
  obtain ⟨-, more, -, ends, -, hmore, rfl, rfl, -⟩ := h.rows
  obtain ⟨segments, tokens, segments', tokens'⟩ := more
  have hempty {begins : Bool} {segments segments' : List (List Char)} {ts ts' : List Token}
      (h : Indented w begins segments ts segments' ts' ends) : ts'.isEmpty = ts.isEmpty := by
    cases h with
    | nil => rfl
    | text _ => rfl
    | tag _ _ _ _ => cases begins <;> rfl
  cases hmore with
  | nil => rfl
  | text hrest =>
    rw [follow?, follow?, hempty hrest]
    rfl
  | tag hkind hmoved hline _ =>
    change follow? (some n) (_ :: _) = follow? (some n) (_ :: _)
    rw [follow?, follow?, hline, hmoved.isBlank]
    simp [Token.isBlank, hkind]

/-- Nodes are added before the tag is read. -/
theorem add (h : BeforeTag w source source' n begins m l l' s s' t t' rest rest')
    (hnodes : Shifted (String.ofList w) (IndentedSection w source source') m nodes nodes' mid) :
    BeforeTag w source source' n begins mid (nodes.reverse ++ l) (nodes'.reverse ++ l') s s' t t'
      rest rest' := by
  obtain ⟨r, more, segment, ends, hlaid, hmore, hrest, hrest', hin⟩ := h.rows
  have hin := hin.append (q := ⟨[], [], [], []⟩) .nil hnodes
  rw [Rows.append_nil] at hin
  exact { h with rows := ⟨r, more, segment, ends, hlaid, hmore, hrest, hrest', hin⟩ }

/-- No parent tag is open. -/
theorem checkOutsideParent_eq (h : BeforeTag w source source' n begins m l l' s s' t t' rest rest')
    (u : Token) : checkOutsideParent s' u = .ok () := by
  obtain ⟨_, _, _, _, -, -, -, -, hin⟩ := h.rows
  unfold checkOutsideParent State.enclosing?
  generalize s.opened = opened at hin
  generalize s'.opened = opened' at hin
  cases hin with
  | outside _ _ => rfl
  | inside _ _ hby _ _ =>
    have hkind := hby.tags.kind
    rcases hby.kind with hsection | hinverted
    · simp [hkind, hsection]
    · simp [hkind, hinverted]

/-- The tag is read, and some nodes are added. -/
theorem leaf (h : BeforeTag w source source' n begins m l l' s s' t t' rest rest')
    (hnodes : Shifted (String.ofList w) (IndentedSection w source source') m nodes nodes' mid)
    (hopened : s₁.opened = s.opened) (hopened' : s₁'.opened = s'.opened)
    (hpragmas : s₁'.pragmas = s₁.pragmas) :
    Alongside w source source' n false mid (nodes.reverse ++ l) (nodes'.reverse ++ l') s₁ s₁' rest
      rest' := by
  obtain ⟨r, more, segment, ends, hlaid, hmore, hrest, hrest', hin⟩ := h.rows
  refine ⟨⟨r.append (.tag w begins segment t t'), more, ends, ?_, hmore, hrest, hrest', ?_⟩,
    h.lines, h.headed, h.plain, hpragmas⟩
  · rwa [Rows.append_assoc]
  · rw [hopened, hopened']
    exact hin.append (Scan.Rows.indented_tag h.kind h.moved (h.line'.trans h.line.symm)) hnodes

/-- The tag is read, and opens a section. -/
theorem enter (h : BeforeTag w source source' n begins m l l' s s' t t' rest rest')
    (hm : m ≠ .laid) (hkind : t.kind = .sectionTag ∨ t.kind = .invertedTag)
    (hu : SameButName t u) (hu' : SameButName t' u') (hmoved : u.Moved u')
    (hopened : s₁.opened = ⟨u, l⟩ :: s.opened) (hopened' : s₁'.opened = ⟨u', l'⟩ :: s'.opened)
    (hpragmas : s₁'.pragmas = s₁.pragmas) :
    Alongside w source source' n false m [] [] s₁ s₁' rest rest' := by
  obtain ⟨r, more, segment, ends, hlaid, hmore, hrest, hrest', hin⟩ := h.rows
  refine ⟨⟨r.append ((Rows.tag w begins segment t t').append ⟨[], [], [], []⟩), more, ends, ?_,
    hmore, hrest, hrest', ?_⟩, h.lines, h.headed, h.plain, hpragmas⟩
  · rwa [Rows.append_nil, Rows.append_assoc]
  · rw [hopened, hopened']
    have hby : OpenedBy t t' u u' := by
      refine ⟨?_, hu.kind.symm, h.moved, h.line'.trans h.line.symm, hmoved, ?_, ?_, ?_⟩
      · rwa [hu.kind]
      · rw [hu.eq]
      · rw [hu'.eq]
      · rw [hu.eq]
    exact .inside hin hm hby .nil .nil

/-- The tag is read, and closes a section. -/
theorem close {tag : Token} {before : List Token} {os : List OpenTag}
    (h : BeforeTag w source source' n begins m l l' s s' t t' rest rest')
    (hm : m ≠ .laid) (hkind : t.kind = .closingTag)
    (hopens : s.opened = ⟨tag, before⟩ :: os) (hu : u.offset? = t.offset?)
    (hu' : u'.offset? = t'.offset?) :
    ∃ tag' before' os', s'.opened = ⟨tag', before'⟩ :: os' ∧ tag.Moved tag' ∧
      ∀ s₁ s₁' : State, s₁.opened = os → s₁'.opened = os' → s₁'.pragmas = s₁.pragmas →
        Alongside w source source' n false m
          ({ tag with stop? := u.offset?, nodes? := some l.reverse } :: before)
          ({ tag' with stop? := u'.offset?, nodes? := some l'.reverse } :: before')
          s₁ s₁' rest rest' := by
  obtain ⟨r, more, segment', ends, hlaid, hmore, hrest, hrest', hin⟩ := h.rows
  rw [hopens] at hin
  generalize hos' : s'.opened = stack' at hin
  cases hin with
  | @inside r inside starts _ m₀ _ segment first first' _ o' _ os' _ _ hbefore hm₀ hby hinside hl =>
    refine ⟨o'.tag, o'.before, os', rfl, hby.tags, fun s₁ s₁' hopened hopened' hpragmas => ?_⟩
    have hfirst : first.kind ≠ .text := by
      rw [hby.same]
      rcases hby.kind with hkind | hkind <;> rw [hkind] <;> nofun
    have hsection : tag.kind = .sectionTag → IndentedSection w source source'
        { tag with stop? := u.offset?, nodes? := some l.reverse }
        { o'.tag with stop? := u'.offset?, nodes? := some l'.reverse } := by
      intro hsection
      rw [Rows.append_assoc, Rows.append_assoc] at hlaid
      refine indentedSection_of_tags hlaid hbefore.indented hinside (hby.same.trans hsection)
        hby.moved hkind h.moved hby.offset hby.offset' hby.delimiters ?_ hu hu'
      rw [hby.moved.delimiters?, ← hby.delimiters]
      exact hby.tags.delimiters?
    -- the rows of the two tags and of what stands between them make one node
    have hrow : (((Rows.tag w starts segment first first').append inside).append
        (Rows.tag w begins segment' t t')).Indented w starts false :=
      ((Scan.Rows.indented_tag hfirst hby.moved hby.line).append hinside).append
        (Scan.Rows.indented_tag h.kind h.moved (h.line'.trans h.line.symm))
    have hnode : Shifted (String.ofList w) (IndentedSection w source source') m₀
        [{ tag with stop? := u.offset?, nodes? := some l.reverse }]
        [{ o'.tag with stop? := u'.offset?, nodes? := some l'.reverse }] m := by
      refine .tag hby.kind hby.tags.kind hby.tags.name ?_ hsection hm₀ hm hl .nil
      obtain ⟨line, offset?, heq⟩ := hby.tags.exists_eq
      rw [heq]
    refine ⟨⟨r.append (((Rows.tag w starts segment first first').append inside).append
      (Rows.tag w begins segment' t t')), more, ends, ?_, hmore, hrest, hrest', ?_⟩, h.lines,
      h.headed, h.plain, hpragmas⟩
    · simpa only [Rows.append_assoc] using hlaid
    · rw [hopened, hopened']
      exact hbefore.append hrow hnode

end BeforeTag

end Reading

/-! ## Step by step -/

/-- More than white space stands on the line. -/
def State.Taken (s : State) : Prop :=
  0 < s.position ∨ ∃ u l, s.siblings = u :: l ∧ u.isBlank = false

/-- **Two parsers in step**: a line begins for both; or a piece of text begins
it and is the last that both have read; or both have read more of the line; or
both have read everything. -/
inductive InStep (w : List Char) (source source' : String) :
    State → List Token → State → List Token → Prop
  | beginning {n : Nat} {s s' : State} {rest rest' : List Token} :
      Alongside w source source' n true .ahead s.siblings s'.siblings s s' rest rest' →
      s.line? ≠ some n → s'.line? ≠ some n → InStep w source source' s rest s' rest'
  | lead {n : Nat} {v v' : Token} {l l' : List Token} {s s' : State} {rest rest' : List Token} :
      Alongside w source source' n false .ahead l l' s s' rest rest' →
      Shifted (String.ofList w) (IndentedSection w source source') .ahead [v] [v'] .past →
      v'.isBlank = v.isBlank → s.line? = some n → s'.line? = some n → s.position = 0 →
      s'.position = 0 → s.siblings = v :: l → s'.siblings = v' :: l' →
      InStep w source source' s rest s' rest'
  | among {n : Nat} {m : Margin} {s s' : State} {rest rest' : List Token} :
      Alongside w source source' n false m s.siblings s'.siblings s s' rest rest' → m ≠ .ahead →
      (m = .laid → headed rest = true) → s.line? = some n → s'.line? = some n → s.Taken →
      s'.Taken → InStep w source source' s rest s' rest'
  | finished {n : Nat} {begins : Bool} {m : Margin} {s s' : State} {rest' : List Token} :
      Alongside w source source' n begins m s.siblings s'.siblings s s' [] rest' → m ≠ .laid →
      InStep w source source' s [] s' rest'

/-- **A tag comes next in both**, and is counted on its line: it begins the line,
but for the white space; or it follows the text that does; or it stands behind
more. -/
inductive Counted (w : List Char) (source source' : String) (n : Nat) (t t' : Token)
    (rest rest' : List Token) (s s' : State) : Prop
  | beginning {l' : List Token} :
      BeforeTag w source source' n true .ahead s.siblings l' s s' t t' rest rest' →
      (alone t rest || headed (t :: rest)) = true → s.position = 0 → s'.position = 1 →
      s'.siblings = .ofText (String.ofList w) n :: l' →
      Counted w source source' n t t' rest rest' s s'
  | lead {v v' : Token} {l l' : List Token} :
      BeforeTag w source source' n false .ahead l l' s s' t t' rest rest' →
      Shifted (String.ofList w) (IndentedSection w source source') .ahead [v] [v'] .past →
      v'.isBlank = v.isBlank → s.position = 1 → s'.position = 1 → s.siblings = v :: l →
      s'.siblings = v' :: l' → Counted w source source' n t t' rest rest' s s'
  | among {m : Margin} :
      BeforeTag w source source' n false m s.siblings s'.siblings s s' t t' rest rest' →
      m ≠ .ahead → (m = .laid → headed (t :: rest) = true) → 0 < s.position → 0 < s'.position →
      (∀ rest, clear s rest = ⟨s, false, none⟩) → (∀ rest, clear s' rest = ⟨s', false, none⟩) →
      Counted w source source' n t t' rest rest' s s'

/-- What a tag leaves in sight: nothing if it has its line to itself, and
otherwise what was there. -/
inductive Leaves (n : Nat) (t : Token) (rest : List Token) (s s' : State) : Margin → Bool → Prop
  | alone {drops : Bool} : follow? (some n) rest = some drops → Leaves n t rest s s' .ahead drops
  | among {m : Margin} : m ≠ .ahead → (m = .laid → t.kind = .comment ∧ headed rest = true) →
      0 < s.position ∨ t.kind = .comment → 0 < s'.position → Leaves n t rest s s' m false

section Steps

variable {w : List Char} (hw : ∀ c ∈ w, Text.isBlank c = true)
variable {source source' : String} {n : Nat} {s s' : State} {t t' : Token}
variable {rest rest' : List Token}

/-- Behind more than white space a tag does not have its line to itself. -/
theorem State.Taken.clear_eq (h : s.Taken) (hline : s.line? = some n) (rest : List Token) :
    clear (s.countLine n) rest = ⟨s.countLine n, false, none⟩ := by
  rw [clear_eq_clearOn, State.countLine, if_pos hline]
  cases follow? s.line? rest with
  | none => rfl
  | some drops =>
    obtain ⟨line?, position, pragmas, siblings, opened⟩ := s
    rcases position with _ | position
    · obtain ⟨u, l, rfl, hblank⟩ := h.resolve_left (Nat.lt_irrefl 0)
      simp [clearOn, hblank]
    · rfl

/-- **A tag is counted** on its line in both. -/
theorem InStep.exists_counted (h : InStep w source source' s (t :: rest) s' rest')
    (hkind : t.kind ≠ .text) :
    ∃ n t' more' s'', build s' rest' = build s'' (t' :: more') ∧ t.line = n ∧ t'.line = n ∧
      Counted w source source' n t t' rest more' (s.countLine n) (s''.countLine n) := by
  cases h with
  | @beginning n _ _ _ _ hboth hline hline' =>
    -- the tag begins its line, so the other text has the white space to be read first
    obtain ⟨t', more', rfl, htag⟩ := hboth.tag hkind
    have hheaded := (Bool.and_eq_true_iff.1 hboth.headed).1
    rw [Bool.not_true, Bool.false_or] at hheaded
    let margin := Token.ofText (String.ofList w) n
    let s'' := (s'.countLine n).add margin
    have hbuild : build s' (margin :: t' :: more') = build s'' (t' :: more') :=
      build_of_step (isAdded_piece ⟨String.ofList w, n, rfl⟩ s' _ rfl)
    have hfirst : s.countLine n = { s with line? := some n, position := 0 } := if_neg hline
    have hsecond : s''.countLine n =
        ⟨some n, 1, s'.pragmas, margin :: s'.siblings, s'.opened⟩ := by
      simp [s'', State.add, State.countLine, hline']
    have htag : BeforeTag w source source' n true .ahead (s.countLine n).siblings s'.siblings
        (s.countLine n) (s''.countLine n) t t' rest more' := by
      rw [hfirst, hsecond]
      exact htag rfl rfl hboth.pragmas
    refine ⟨n, t', more', s'', hbuild, htag.line, htag.line', .beginning htag hheaded ?_ ?_ ?_⟩
    · rw [hfirst]
    · rw [hsecond]
    · rw [hsecond]
  | @lead n v v' l l' _ _ _ _ hboth hnode hblank hline hline' hposition hposition' hsiblings
      hsiblings' =>
    obtain ⟨t', more', rfl, htag⟩ := hboth.tag hkind
    have htag := htag (countLine_opened s n) (countLine_opened s' n)
      (by rw [countLine_pragmas, countLine_pragmas, hboth.pragmas])
    refine ⟨n, t', more', s', rfl, htag.line, htag.line', .lead htag hnode hblank ?_ ?_ ?_ ?_⟩
    · rw [State.countLine, if_pos hline, hposition]
    · rw [State.countLine, if_pos hline', hposition']
    · rw [countLine_siblings, hsiblings]
    · rw [countLine_siblings, hsiblings']
  | @among n m _ _ _ _ hboth hm hheaded hline hline' htaken htaken' =>
    obtain ⟨t', more', rfl, htag⟩ := hboth.tag hkind
    have htag := htag (countLine_opened s n) (countLine_opened s' n)
      (by rw [countLine_pragmas, countLine_pragmas, hboth.pragmas])
    have hposition {s : State} (hline : s.line? = some n) : 0 < (s.countLine n).position := by
      rw [State.countLine, if_pos hline]
      exact Nat.succ_pos _
    refine ⟨n, t', more', s', rfl, htag.line, htag.line', .among ?_ hm hheaded (hposition hline)
      (hposition hline') (htaken.clear_eq hline) (htaken'.clear_eq hline')⟩
    rw [countLine_siblings, countLine_siblings]
    exact htag

/-- A tag that may stand alone and that text or a variable follows on its line is
a comment. -/
theorem comment_of_headed (hstands : t.kind.standsAlone false = true)
    (h : headed (t :: rest) = true) : t.kind = .comment ∧ headed rest = true := by
  unfold headed at h
  cases hkind : t.kind <;> simp_all [TokenKind.writes, TokenKind.standsAlone]

/-- Whatever a tag is, the nodes in sight are the same but for white space. -/
theorem Counted.exists_before (h : Counted w source source' n t t' rest rest' s s') :
    ∃ begins m, m ≠ .ahead ∧
      BeforeTag w source source' n begins m s.siblings s'.siblings s s' t t' rest rest' := by
  cases h with
  | beginning htag _ _ _ hsiblings' =>
    refine ⟨true, .laid, by decide, ?_⟩
    rw [hsiblings']
    exact htag.add (.margin .nil)
  | lead htag hnode _ _ _ hsiblings hsiblings' =>
    refine ⟨false, .past, by decide, ?_⟩
    rw [hsiblings, hsiblings']
    exact htag.add hnode
  | @among m htag hm _ _ _ _ _ => exact ⟨false, m, hm, htag⟩

include hw in
/-- **Both take away the same around a tag** but for the white space: what the
line begins with if the tag has the line to itself, and nothing if not. -/
theorem Counted.exists_cleared (h : Counted w source source' n t t' rest rest' s s')
    (hstands : t.kind.standsAlone false = true) (hline : s.line? = some n)
    (hline' : s'.line? = some n) :
    ∃ begins m l l' drops lead lead',
      BeforeTag w source source' n begins m l l' s s' t t' rest rest' ∧
      clear s rest = ⟨{ s with siblings := l }, drops, lead⟩ ∧
      clear s' rest' = ⟨{ s' with siblings := l' }, drops, lead'⟩ ∧
      Leaves n t rest s s' m drops := by
  obtain ⟨line?, position, pragmas, siblings, opened⟩ := s
  obtain ⟨line?', position', pragmas', siblings', opened'⟩ := s'
  dsimp only at hline hline'
  subst hline hline'
  cases h with
  | @beginning l' htag hheaded hposition hposition' hsiblings' =>
    dsimp only at hposition hposition' hsiblings'
    subst hposition hposition' hsiblings'
    have hfollow := htag.follow?_eq
    have hline := htag.line
    have hblank : (Token.ofText (String.ofList w) n).isBlank = true := by
      refine List.all_eq_true.2 fun c hc => hw c ?_
      rwa [Token.ofText, Token.text, Option.getD_some, String.toList_ofList] at hc
    simp only [clear_eq_clearOn, hfollow]
    cases hends : follow? (some n) rest with
    | none =>
      -- the tag does not have its line to itself, so it is a comment
      have hnot : alone t rest = false := by
        rw [alone, hline, hends, hstands]
        rfl
      rw [hnot, Bool.false_or] at hheaded
      have hcomment := comment_of_headed hstands hheaded
      exact ⟨true, .laid, siblings, _ :: l', false, none, none, htag.add (.margin .nil), rfl, rfl,
        .among (by decide) (fun _ => hcomment) (.inr hcomment.1) Nat.one_pos⟩
    | some drops =>
      refine ⟨true, .ahead, siblings, l', drops, none, some (.ofText (String.ofList w) n), htag,
        rfl, ?_, .alone hends⟩
      simp only [clearOn, hblank, if_true]
  | @lead v v' l l' htag hnode hblank hposition hposition' hsiblings hsiblings' =>
    dsimp only at hposition hposition' hsiblings hsiblings'
    subst hposition hposition' hsiblings hsiblings'
    have hfollow := htag.follow?_eq
    have hkept : Leaves n t rest ⟨some n, 1, pragmas, v :: l, opened⟩
        ⟨some n, 1, pragmas', v' :: l', opened'⟩ .past false :=
      .among (by decide) (by simp) (.inl Nat.one_pos) Nat.one_pos
    simp only [clear_eq_clearOn, hfollow]
    cases hends : follow? (some n) rest with
    | none =>
      exact ⟨false, .past, v :: l, v' :: l', false, none, none, htag.add hnode, rfl, rfl, hkept⟩
    | some drops =>
      cases hv : v.isBlank with
      | true =>
        refine ⟨false, .ahead, l, l', drops, some v, some v', htag, ?_, ?_, .alone hends⟩
        · simp only [clearOn, hv, if_true]
        · simp only [clearOn, hblank, hv, if_true]
      | false =>
        refine ⟨false, .past, v :: l, v' :: l', false, none, none, htag.add hnode, ?_, ?_, hkept⟩
        · simp only [clearOn, hv, Bool.false_eq_true, if_false]
        · simp only [clearOn, hblank, hv, Bool.false_eq_true, if_false]
  | @among m htag hm hheaded hposition hposition' hclear hclear' =>
    exact ⟨false, m, siblings, siblings', false, none, none, htag, hclear rest, hclear' rest',
      .among hm (fun hlaid => comment_of_headed hstands (hheaded hlaid)) (.inl hposition)
        hposition'⟩

/-- A tag but a comment does not follow white space and comments only, unless it
has its line to itself. -/
theorem Leaves.of_tag {m : Margin} {drops : Bool} (h : Leaves n t rest s s' m drops)
    (hkind : t.kind ≠ .comment) : m ≠ .laid ∧ (m ≠ .ahead → 0 < s.position ∧ 0 < s'.position) := by
  cases h with
  | alone _ => exact ⟨by decide, absurd rfl⟩
  | among hm hheaded hposition hposition' =>
    exact ⟨fun hlaid => hkind (hheaded hlaid).1,
      fun _ => ⟨hposition.resolve_right hkind, hposition'⟩⟩

/-- **Both go on** behind a tag: on the next line if it has its line to itself, and
on this one if not. -/
theorem Alongside.after {m : Margin} {r r' : State} {drops : Bool}
    (h : Alongside w source source' n false m s.siblings s'.siblings s s' rest rest')
    (hleaves : Leaves n t rest r r' m drops) (hline : s.line? = some n)
    (hline' : s'.line? = some n) (htaken : m ≠ .ahead → s.Taken) (htaken' : m ≠ .ahead → s'.Taken) :
    InStep w source source' s (if drops then rest.tail else rest) s'
      (if drops then rest'.tail else rest') := by
  cases hleaves with
  | @alone drops hends =>
    cases drops with
    | false =>
      cases rest with
      | nil => exact .finished h (by decide)
      | cons next more =>
        obtain ⟨-, hnext, -⟩ := h.lines
        rw [follow?, hnext, if_neg (not_not_intro rfl)] at hends
        split at hends <;> cases hends
    | true =>
      obtain ⟨blank, more, rfl, -, hblank, hlast⟩ := follow?_eq_some_true hends
      obtain ⟨segment, more', -, rfl, hread⟩ := h.text (isBlank_kind hblank)
      have hafter := hread s s' .nil rfl rfl h.pragmas
      rw [if_pos rfl, if_pos rfl, List.tail_cons, List.tail_cons]
      cases more with
      | nil => exact .finished hafter (by decide)
      | cons next more =>
        have hnewline : blank.endsLine = true := by simpa using hlast
        rw [hnewline] at hafter
        refine .beginning hafter ?_ ?_ <;> simp [hline, hline']
  | among hm hheaded _ _ =>
    exact .among h hm (fun hlaid => (hheaded hlaid).2) hline hline' (htaken hm) (htaken' hm)

/-- Text is read where the line has begun before. -/
theorem Alongside.text_among {m : Margin}
    (h : Alongside w source source' n false m s.siblings s'.siblings s s' (t :: rest) rest')
    (hm : m ≠ .ahead) (hkind : t.kind = .text) (hline : s.line? = some n)
    (hline' : s'.line? = some n) :
    ∃ more', build s' rest' = build ((s'.countLine n).add t) more' ∧
      InStep w source source' ((s.countLine n).add t) rest ((s'.countLine n).add t) more' := by
  obtain ⟨segment, more', rfl, rfl, hread⟩ := h.text hkind
  let t := Token.ofText (String.ofList segment) n
  have hbuild : build s' (t :: more') = build ((s'.countLine n).add t) more' :=
    build_of_step (isAdded_piece ⟨_, n, rfl⟩ s' _ rfl)
  have hnode : Shifted (String.ofList w) (IndentedSection w source source') m [t] [t]
      (if t.endsLine then .ahead else .past) := by
    refine .text rfl rfl ?_ .nil
    rw [if_neg hm, String.empty_append]
  have hafter : Alongside w source source' (if t.endsLine then n + 1 else n) t.endsLine
      (if t.endsLine then .ahead else .past) (t :: s.siblings) (t :: s'.siblings)
      ((s.countLine n).add t) ((s'.countLine n).add t) rest more' :=
    hread _ _ hnode (countLine_opened s n) (countLine_opened s' n)
      ((countLine_pragmas s' n).trans (h.pragmas.trans (countLine_pragmas s n).symm))
  refine ⟨more', hbuild, ?_⟩
  have hcounted : s.countLine n = { s with position := s.position + 1 } := if_pos hline
  have hcounted' : s'.countLine n = { s' with position := s'.position + 1 } := if_pos hline'
  rw [hcounted, hcounted'] at hafter ⊢
  cases hends : t.endsLine with
  | true =>
    rw [hends] at hafter
    refine .beginning hafter ?_ ?_ <;> simp [State.add, hline, hline']
  | false =>
    rw [hends] at hafter
    exact .among hafter (by decide) (by simp) hline hline' (.inl (Nat.succ_pos _))
      (.inl (Nat.succ_pos _))

/-- In step both have come to the same place. -/
theorem InStep.exists_alongside (h : InStep w source source' s rest s' rest') :
    ∃ n begins m l l', Alongside w source source' n begins m l l' s s' rest rest' := by
  cases h with
  | beginning hboth _ _ => exact ⟨_, _, _, _, _, hboth⟩
  | lead hboth _ _ _ _ _ _ _ _ => exact ⟨_, _, _, _, _, hboth⟩
  | among hboth _ _ _ _ _ _ => exact ⟨_, _, _, _, _, hboth⟩
  | finished hboth _ => exact ⟨_, _, _, _, _, hboth⟩

include hw in
/-- **Both read a piece of text.** -/
theorem InStep.text (h : InStep w source source' s (t :: rest) s' rest') (hkind : t.kind = .text) :
    ∃ s₁' more', build s' rest' = build s₁' more' ∧
      InStep w source source' ((s.countLine t.line).add t) rest s₁' more' := by
  cases h with
  | @beginning n _ _ _ _ hboth hline hline' =>
    obtain ⟨segment, more', rfl, rfl, hread⟩ := hboth.text hkind
    let t := Token.ofText (String.ofList segment) n
    let t' := Token.ofText (String.ofList (w ++ segment)) n
    have hbuild : build s' (t' :: more') = build ((s'.countLine n).add t') more' :=
      build_of_step (isAdded_piece ⟨_, n, rfl⟩ s' _ rfl)
    have hnode : Shifted (String.ofList w) (IndentedSection w source source') .ahead [t] [t']
        (if t.endsLine then .ahead else .past) :=
      .text rfl rfl String.ofList_append .nil
    have hcounted : s.countLine n = { s with line? := some n, position := 0 } := if_neg hline
    have hcounted' : s'.countLine n = { s' with line? := some n, position := 0 } := if_neg hline'
    refine ⟨_, more', hbuild, ?_⟩
    change InStep w source source' ((s.countLine n).add t) rest _ more'
    rw [hcounted, hcounted']
    have hafter {nodes nodes' : List Token} {mid : Margin}
        (hnodes : Shifted (String.ofList w) (IndentedSection w source source') .ahead nodes nodes'
          mid) :
        Alongside w source source' (if t.endsLine then n + 1 else n) t.endsLine mid
          (nodes.reverse ++ s.siblings) (nodes'.reverse ++ s'.siblings)
          (State.add { s with line? := some n, position := 0 } t)
          (State.add { s' with line? := some n, position := 0 } t') rest more' :=
      hread _ _ hnodes rfl rfl hboth.pragmas
    -- a piece that ends its line leaves both at the next one; any other is kept as the lead
    cases hends : t.endsLine with
    | true =>
      rw [hends] at hnode hafter
      exact .beginning (hafter hnode) (by simp [State.add]) (by simp [State.add])
    | false =>
      rw [hends] at hnode hafter
      have hblank : t'.isBlank = t.isBlank := by
        simp only [t, t', Token.isBlank, Token.ofText, Token.text, Option.getD_some, isBlankString,
          String.toList_ofList, Text.allBlank, List.all_append, List.all_eq_true.2 hw,
          Bool.true_and]
      exact .lead (hafter .nil) hnode hblank rfl rfl rfl rfl rfl rfl
  | @lead n v v' l l' _ _ _ _ hboth hnode _ hline hline' _ _ hsiblings hsiblings' =>
    have hboth := hboth.add hnode
    have hn : t.line = n := hboth.lines.2.1
    rw [List.reverse_singleton, List.reverse_singleton, List.singleton_append,
      List.singleton_append, ← hsiblings, ← hsiblings'] at hboth
    obtain ⟨more', hbuild, hafter⟩ := hboth.text_among (by decide) hkind hline hline'
    rw [hn]
    exact ⟨_, more', hbuild, hafter⟩
  | @among n m _ _ _ _ hboth hm _ hline hline' _ _ =>
    have hn : t.line = n := hboth.lines.2.1
    obtain ⟨more', hbuild, hafter⟩ := hboth.text_among hm hkind hline hline'
    rw [hn]
    exact ⟨_, more', hbuild, hafter⟩

include hw in
/-- **A tag is placed alike in both.** -/
theorem Counted.place {u u' : Token} {s₁ : State} {drops : Bool}
    (h : Counted w source source' n t t' rest rest' s s') (helementary : t.kind.isElementary = true)
    (hu : SameButName t u) (hu' : SameButName t' u') (hmoved : u.Moved u')
    (hline : s.line? = some n) (hline' : s'.line? = some n)
    (hplace : Tree.place s u rest = .ok (s₁, drops)) :
    ∃ s₁', Tree.place s' u' rest' = .ok (s₁', drops) ∧
      InStep w source source' s₁ (if drops then rest.tail else rest) s₁'
        (if drops then rest'.tail else rest') := by
  have hkind' : u'.kind = u.kind := hmoved.kind
  obtain ⟨begins, m, hm, hbefore⟩ := h.exists_before
  have htext : u.kind ≠ .text := hu.kind ▸ hbefore.kind
  have hblank {u : Token} (hkind : u.kind ≠ .text) : u.isBlank = false := by
    simp [Token.isBlank, hkind]
  rw [← hu.kind] at helementary
  have hcleared (hstands : u.kind.standsAlone false = true) :=
    h.exists_cleared hw (hu.kind ▸ hstands) hline hline'
  simp only [place_eq_ok_iff] at hplace ⊢
  cases hplace with
  | enter hkind =>
    have hsection : t.kind = .sectionTag ∨ t.kind = .invertedTag := hu.kind ▸ hkind
    obtain ⟨begins, m, l, l', drops, lead, lead', hbefore, hclear, hclear', hleaves⟩ :=
      hcleared (by rcases hkind with hkind | hkind <;> rw [hkind] <;> rfl)
    obtain ⟨hm, hposition⟩ :=
      hleaves.of_tag (by rcases hsection with hkind | hkind <;> rw [hkind] <;> decide)
    have hafter : Alongside w source source' n false m [] []
        (State.enter { s with siblings := l } u) (State.enter { s' with siblings := l' } u') rest
        rest' :=
      hbefore.enter hm hsection hu hu' hmoved rfl rfl hbefore.pragmas
    have hplacing : Placing s' u' rest' _ _ :=
      .enter (hkind' ▸ hkind) (hbefore.checkOutsideParent_eq u')
    rw [hclear'] at hplacing
    rw [hclear]
    exact ⟨_, hplacing, hafter.after hleaves hline hline' (fun hm => .inl (hposition hm).1)
      fun hm => .inl (hposition hm).2⟩
  | @close o opened hkind hopens hname hdynamic =>
    obtain ⟨begins, m, l, l', drops, lead, lead', hbefore, hclear, hclear', hleaves⟩ :=
      hcleared (by rw [hkind]; rfl)
    have hclosing : t.kind = .closingTag := hu.kind.symm.trans hkind
    obtain ⟨hm, hposition⟩ := hleaves.of_tag (by rw [hclosing]; decide)
    obtain ⟨tag', before', opened', hopens', htag, hafter⟩ :=
      hbefore.close hm hclosing hopens (show u.offset? = t.offset? by rw [hu.eq])
        (show u'.offset? = t'.offset? by rw [hu'.eq])
    let node := { o.tag with stop? := u.offset?, nodes? := some l.reverse }
    let node' := { tag' with stop? := u'.offset?, nodes? := some l'.reverse }
    have hafter := hafter { s with siblings := node :: o.before, opened := opened }
      { s' with siblings := node' :: before', opened := opened' } rfl rfl hbefore.pragmas
    have hplacing : Placing s' u' rest' _ _ := .close (hkind'.trans hkind) hopens'
      (hmoved.name.trans (hname.trans htag.name.symm))
      (hmoved.dynamic.trans (hdynamic.trans htag.dynamic.symm))
    rw [hclear'] at hplacing
    rw [hclear]
    exact ⟨_, hplacing, hafter.after hleaves hline hline' (fun hm => .inl (hposition hm).1)
      fun hm => .inl (hposition hm).2⟩
  | addComment hkind =>
    obtain ⟨begins, m, l, l', drops, lead, lead', hbefore, hclear, hclear', hleaves⟩ :=
      hcleared (by rw [hkind]; rfl)
    have hnode : Shifted (String.ofList w) (IndentedSection w source source') m [u] [u'] m :=
      .comment hkind (hkind'.trans hkind) .nil
    have hafter : Alongside w source source' n false m (u :: l) (u' :: l')
        (State.add { s with siblings := l } u) (State.add { s' with siblings := l' } u') rest
        rest' :=
      hbefore.leaf hnode rfl rfl hbefore.pragmas
    have hplacing : Placing s' u' rest' _ _ := .addComment (hkind'.trans hkind)
    rw [hclear'] at hplacing
    rw [hclear]
    exact ⟨_, hplacing, hafter.after hleaves hline hline'
      (fun _ => .inr ⟨u, l, rfl, hblank htext⟩)
      fun _ => .inr ⟨u', l', rfl, hblank (hkind' ▸ htext)⟩⟩
  | addLeaf hkind =>
    refine ⟨_, .addLeaf (hkind' ▸ hkind), ?_⟩
    have hwritten : u.kind ∈ [.escaped, .tripleBrace, .ampersand] := by
      revert hkind helementary htext
      cases u.kind <;> decide
    have hnode : Shifted (String.ofList w) (IndentedSection w source source') m [u] [u'] .past :=
      .written hwritten hmoved hm .nil
    have hafter : Alongside w source source' n false .past (u :: s.siblings) (u' :: s'.siblings)
        (s.add u) (s'.add u') rest rest' := hbefore.leaf hnode rfl rfl hbefore.pragmas
    exact .among hafter (by decide) (by simp) hline hline' (.inr ⟨u, _, rfl, hblank htext⟩)
      (.inr ⟨u', _, rfl, hblank (hkind' ▸ htext)⟩)
  -- the other kinds are not elementary
  | pass hkind | enterParent hkind | enterBlock hkind | addPartial hkind | addPragma hkind
  | addSigil hkind =>
    rw [hkind] at helementary
    cases helementary

include hw in
/-- **Both read a tag.** -/
theorem InStep.tag {s₁ : State} {drops : Bool}
    (h : InStep w source source' s (t :: rest) s' rest') (hkind : t.kind ≠ .text)
    (helementary : t.kind.isElementary = true) (hstep : step s t rest = .ok (s₁, drops)) :
    ∃ s₁' more', build s' rest' = build s₁' more' ∧
      InStep w source source' s₁ (if drops then rest.tail else rest) s₁' more' := by
  obtain ⟨n, t', more', s'', hbuild, rfl, hline', hcounted⟩ := h.exists_counted hkind
  obtain ⟨begins, m, -, hbefore⟩ := hcounted.exists_before
  obtain ⟨u, hread, hplace⟩ := exists_of_step hstep
  obtain ⟨u', hread', hmoved⟩ := readName_moved (fun _ _ => rfl) hbefore.moved hread
  obtain ⟨s₁', hplace', hafter⟩ := hcounted.place hw helementary (sameButName_readName hread)
    (sameButName_readName hread') hmoved (countLine_line s _) (countLine_line s'' _) hplace
  refine ⟨s₁', _, ?_, hafter⟩
  have hstep' : step s'' t' more' = .ok (s₁', drops) := by
    unfold step
    dsimp only
    rw [hline', hbefore.pragmas, hread']
    exact hplace'
  rw [hbuild, build, hstep']

include hw in
/-- **Both take a step.** -/
theorem InStep.step {s₁ : State} {drops : Bool} (h : InStep w source source' s (t :: rest) s' rest')
    (hstep : Tree.step s t rest = .ok (s₁, drops)) :
    ∃ s₁' more', build s' rest' = build s₁' more' ∧
      InStep w source source' s₁ (if drops then rest.tail else rest) s₁' more' := by
  obtain ⟨n, begins, m, l, l', hboth⟩ := h.exists_alongside
  by_cases hkind : t.kind = .text
  · obtain ⟨segment, -, ht, -, -⟩ := hboth.text hkind
    rw [isAdded_piece ⟨_, n, ht⟩ s rest rfl] at hstep
    cases hstep
    exact h.text hw hkind
  · exact h.tag hw hkind (hboth.plain t List.mem_cons_self) hstep

/-- In the end both have read everything. -/
theorem InStep.exists_shifted (h : InStep w source source' s [] s' rest')
    (hopened : s.opened = []) :
    rest' = [] ∧ s'.opened = [] ∧ s'.pragmas = s.pragmas ∧
      ∃ m, m ≠ .laid ∧ Shifted (String.ofList w) (IndentedSection w source source') .ahead
        s.siblings.reverse s'.siblings.reverse m := by
  have hends {n : Nat} {begins : Bool} {m : Margin}
      (hboth : Alongside w source source' n begins m s.siblings s'.siblings s s' [] rest')
      (hm : m ≠ .laid) : rest' = [] ∧ s'.opened = [] ∧ s'.pragmas = s.pragmas ∧
        ∃ m, m ≠ .laid ∧ Shifted (String.ofList w) (IndentedSection w source source') .ahead
          s.siblings.reverse s'.siblings.reverse m := by
    obtain ⟨⟨r, more, ends, -, hmore, hrest, hrest', hin⟩, -, -, -, hpragmas⟩ := hboth
    obtain ⟨segments, tokens, segments', tokens'⟩ := more
    dsimp only at hrest hrest'
    subst hrest hrest'
    cases hmore
    rw [hopened] at hin
    generalize hos' : s'.opened = opened' at hin
    cases hin with
    | outside _ hnodes => exact ⟨rfl, rfl, hpragmas, m, hm, hnodes⟩
  cases h with
  | beginning hboth _ _ => exact hends hboth (by decide)
  | lead hboth hnode _ _ _ _ _ hsiblings hsiblings' =>
    have hboth := hboth.add hnode
    rw [List.reverse_singleton, List.reverse_singleton, List.singleton_append,
      List.singleton_append, ← hsiblings, ← hsiblings'] at hboth
    exact hends hboth (by decide)
  | among hboth _ hheaded _ _ _ _ =>
    exact hends hboth fun hlaid => Bool.false_ne_true (hheaded hlaid)
  | finished hboth hm => exact hends hboth hm

end Steps

/-! ## The whole template -/

section Whole

variable {w : List Char} {delimiters : Delimiters} {pragmas : List Pragma} {source : String}
variable {ts : List Token} {tree : Tree}

/-- **The template with white space where its lines begin parses**, to the same
nodes behind that white space, if the template does and its lines begin with what
they write. -/
theorem exists_ofTokens_indented (hw : ∀ c ∈ w, Text.isBlank c = true ∧ c ≠ '\n') (hne : w ≠ [])
    (hd : delimiters.Accepted) (hscan : Token.scan delimiters source = .ok ts)
    (htree : ofTokens pragmas ts = .ok tree)
    (helementary : ∀ t ∈ ts, t.kind.isElementary = true) (hheaded : linesHeaded true ts = true) :
    ∃ source' ts' tree' m,
      source' = String.ofList (Scan.indented w ⟨0, 0, delimiters⟩ true source.toList) ∧
      Token.scan delimiters source' = .ok ts' ∧ ofTokens pragmas ts' = .ok tree' ∧ m ≠ .laid ∧
      Shifted (String.ofList w) (IndentedSection w source source') .ahead tree.nodes tree'.nodes
        m := by
  have hplain : ∀ t ∈ ts, t.kind ≠ .pragma := by
    intro t ht hkind
    have h := helementary t ht
    rw [hkind] at h
    cases h
  obtain ⟨raw, hraw, rfl⟩ := Scan.exists_of_scan hscan
  have hraws : ∀ t ∈ raw, t.kind ≠ .pragma := fun t ht hkind =>
    hplain t (by simp [Scan.hoistPragmas, ht, hkind]) hkind
  rw [Scan.hoistPragmas_eq_self hraws] at hscan htree helementary hheaded
  -- the tokens of both templates, each on its segments
  obtain ⟨stop, hreads⟩ := Scan.tokensFrom_eq_ok_iff.1 hraw
  obtain ⟨segments, hwhole, htiles⟩ := hreads.exists_tiles hd
  rw [List.append_nil] at hwhole
  obtain ⟨segments', ts', stop', ends, htiles', hindented, hflat⟩ :=
    htiles.exists_indented hw hne hd hraws ⟨0, 0, delimiters⟩ rfl rfl true
  rw [← hwhole] at hflat
  let source' := String.ofList (Scan.indented w ⟨0, 0, delimiters⟩ true source.toList)
  have hsource' : source'.toList = segments'.flatten := String.toList_ofList.trans hflat.symm
  have hlaid : Rows.Laid source source' ⟨segments, raw, segments', ts'⟩ := by
    refine ⟨⟨0, 0, delimiters⟩, ⟨0, 0, delimiters⟩, rfl, ⟨hd, [], [], stop, ?_, rfl, htiles⟩,
      ⟨hd, [], [], stop', ?_, rfl, htiles'⟩⟩
    · rw [List.append_nil]
      exact hwhole
    · rw [List.append_nil]
      exact hsource'
  have hscan' : Token.scan delimiters source' = .ok ts' := by
    have hreads' := htiles'.reads hd
    rw [List.append_nil, ← hsource'] at hreads'
    exact hreads'.scan_eq (hindented.plain hraws)
  -- both parsers begin in step
  obtain ⟨s, hbuild, hopened, rfl⟩ := ofTokens_eq_ok_iff.1 htree
  let start : State := ⟨none, 0, .ofPragmas pragmas, [], []⟩
  have hstart : InStep w source source' start raw start ts' := by
    have hboth : Alongside w source source' 0 true .ahead [] [] start start raw ts' :=
      ⟨⟨⟨[], [], [], []⟩, ⟨segments, raw, segments', ts'⟩, ends, hlaid, hindented, rfl, rfl,
        .outside .nil .nil⟩, onLines_scan hscan hraws, hheaded, helementary, rfl⟩
    exact .beginning hboth (by simp [start]) (by simp [start])
  have hin : ∃ s' rest', build start ts' = build s' rest' ∧
      InStep w source source' s [] s' rest' := by
    refine build_induct (I := fun s rest => ∃ s' rest', build start ts' = build s' rest' ∧
      InStep w source source' s rest s' rest') ?_ hbuild ⟨start, ts', rfl, hstart⟩
    rintro s t rest s₁ drops hstep ⟨s', rest', hbuild, hin⟩
    obtain ⟨s₁', more', hmore, hafter⟩ := hin.step (fun c hc => (hw c hc).1) hstep
    exact ⟨s₁', more', hbuild.trans hmore, hafter⟩
  obtain ⟨s', rest', hbuild', hin⟩ := hin
  obtain ⟨rfl, hopened', hpragmas, m, hm, hnodes⟩ := hin.exists_shifted hopened
  refine ⟨source', ts', ⟨s'.siblings.reverse, s'.pragmas⟩, m, rfl, hscan', ?_, hm, hnodes⟩
  refine ofTokens_eq_ok_iff.2 ⟨s', hbuild'.trans ?_, hopened', rfl⟩
  rw [build]

end Whole

end Tree

end Mustache
