import Mustache.Program.Compile
import Mustache.Proofs.Basic
/-!
# Mustache — what the walk of the compiler does

The compiler walks the nodes of a tree and files sections and overrides on
the way. `Walked` says, kind by kind, what a walk that succeeds does to its
state and which code it gives; it is proved of the compiler once
(`walked_of_walk`, `Program.exists_walked`), and no later proof opens the
compiler again.

A node that encloses nothing is compiled by itself (`leafCode?`). A section
is walked only where its key is not taken.
-/

namespace Mustache

namespace Compile

/-! ## Nodes that enclose nothing -/

/-- The code of a node that encloses nothing, written at the start of a
line or not. -/
def leafCode? (pragmas : PragmaSet) (starts : Bool) (t : Token) : Option (List Instr) :=
  match t.kind with
  | .partialTag => some [.insertPartial (templateNameOf pragmas t) (t.indent?.filter (· ≠ ""))]
  | .comment => some []
  | .escaped =>
    some [.interpolate (lookupOf pragmas t.name) (filtersOf pragmas t.filters) true starts]
  | .tripleBrace | .ampersand =>
    some [.interpolate (lookupOf pragmas t.name) (filtersOf pragmas t.filters) false starts]
  | .text => some [.text t.text starts]
  | _ => none

/-- Whether a line starts after a node that encloses nothing. -/
def startsAfterLeaf (starts : Bool) (t : Token) : Bool :=
  match t.kind with
  | .escaped | .tripleBrace | .ampersand => false
  | .text => t.endsLine
  | _ => starts

/-! ## Steps of the walk -/

section Steps

variable {α β : Type} {s s' : State}

/-- A walk in two parts. -/
theorem run_bind {first : Walk α} {next : α → Walk β} {b : β}
    (h : (first >>= next).run s = .ok (b, s')) :
    ∃ a s₁, first.run s = .ok (a, s₁) ∧ (next a).run s₁ = .ok (b, s') := by
  rw [StateT.run_bind] at h
  cases hfirst : first.run s with
  | error e => rw [hfirst] at h; cases h
  | ok r =>
    rw [hfirst] at h
    exact ⟨r.1, r.2, rfl, h⟩

theorem run_pure {a b : α} (h : (pure a : Walk α).run s = .ok (b, s')) : b = a ∧ s' = s := by
  cases h
  exact ⟨rfl, rfl⟩

end Steps

variable (digest : String → String) (source : String)

/-- The key of a section. -/
def sectionKey (t : Token) : String :=
  digest (sectionText (Delimiters.unlessStandard t.delimiters?) (sectionSource source t))

/-- What is filed for a section with this body. -/
def sectionBody (t : Token) (body : List Instr) : SectionBody :=
  ⟨sectionSource source t, Delimiters.unlessStandard t.delimiters?, body⟩

mutual

/-- **A walk that succeeds**: from a state over nodes to their code and the
state after them. -/
inductive Walked : State → List Token → List Instr → State → Prop
  | nil {s : State} : Walked s [] [] s
  | pragma {s s' : State} {t : Token} {ts : List Token} {code : List Instr} :
      t.kind = .pragma → Walked { s with pragmas := s.pragmas.enable t.name } ts code s' →
      Walked s (t :: ts) code s'
  | leaf {s s' : State} {t : Token} {ts : List Token} {own code : List Instr} :
      leafCode? s.pragmas s.startsLine t = some own →
      Walked { s with startsLine := startsAfterLeaf s.startsLine t } ts code s' →
      Walked s (t :: ts) (own ++ code) s'
  | newSection {s s₁ s' : State} {t : Token} {ts : List Token} {body code : List Instr} :
      t.kind = .sectionTag → Entries.has s.sections (sectionKey digest source t) = false →
      Walked s t.nodes body s₁ →
      Walked
        { s₁ with sections :=
            Entries.insert s₁.sections (sectionKey digest source t) (sectionBody source t body) }
        ts code s' →
      Walked s (t :: ts)
        (.enter (lookupOf s₁.pragmas t.name) (filtersOf s₁.pragmas t.filters)
          (sectionKey digest source t) :: code) s'
  | knownSection {s s' : State} {t : Token} {ts : List Token} {code : List Instr} :
      t.kind = .sectionTag → Entries.has s.sections (sectionKey digest source t) = true →
      Walked s ts code s' →
      Walked s (t :: ts)
        (.enter (lookupOf s.pragmas t.name) (filtersOf s.pragmas t.filters)
          (sectionKey digest source t) :: code) s'
  | inverted {s s₁ s' : State} {t : Token} {ts : List Token} {body code : List Instr} :
      t.kind = .invertedTag → Walked s t.nodes body s₁ → Walked s₁ ts code s' →
      Walked s (t :: ts)
        (.inverted (lookupOf s.pragmas t.name) (filtersOf s.pragmas t.filters) body :: code) s'
  | extend {s s₁ s' : State} {t : Token} {ts : List Token} {os : List (String × String)}
      {code : List Instr} :
      t.kind = .parentTag → WalkedOverrides s t.nodes os s₁ → Walked s₁ ts code s' →
      Walked s (t :: ts) (.extend (templateNameOf s₁.pragmas t) os :: code) s'
  | block {s s₁ s' : State} {t : Token} {ts : List Token} {body code : List Instr} :
      t.kind = .blockVar → Walked s t.nodes body s₁ → Walked s₁ ts code s' →
      Walked s (t :: ts) (.block t.name body :: code) s'

/-- A walk over the nodes inside a parent tag. -/
inductive WalkedOverrides : State → List Token → List (String × String) → State → Prop
  | nil {s : State} : WalkedOverrides s [] [] s
  | skip {s s' : State} {t : Token} {ts : List Token} {os : List (String × String)} :
      t.kind ≠ .blockArg → WalkedOverrides s ts os s' → WalkedOverrides s (t :: ts) os s'
  | override {s s₁ s' : State} {t : Token} {ts : List Token} {body : List Instr}
      {os : List (String × String)} :
      t.kind = .blockArg → Walked s t.nodes body s₁ →
      WalkedOverrides
        { s₁ with blocks := Entries.insertNew s₁.blocks (digest (Instr.bodyText body)) body }
        ts os s' →
      WalkedOverrides s (t :: ts) ((t.name, digest (Instr.bodyText body)) :: os) s'

end

variable {digest source}

/-! ## The first node, by its kind -/

section First

variable {s s' : State} {t : Token} {ts : List Token} {code : List Instr}

/-- A pragma is enabled for what follows it. -/
theorem Walked.of_pragma (h : Walked digest source s (t :: ts) code s')
    (hkind : t.kind = .pragma) :
    Walked digest source { s with pragmas := s.pragmas.enable t.name } ts code s' := by
  cases h with
  | pragma _ hrest => exact hrest
  | leaf hcode _ =>
    rw [leafCode?, hkind] at hcode
    cases hcode
  | newSection hother | knownSection hother | inverted hother | extend hother | block hother =>
    rw [hkind] at hother
    cases hother

/-- A node that encloses nothing is compiled by itself, and then what follows
it. -/
theorem Walked.of_leaf {own : List Instr} (h : Walked digest source s (t :: ts) code s')
    (hown : leafCode? s.pragmas s.startsLine t = some own) :
    ∃ rest,
      Walked digest source { s with startsLine := startsAfterLeaf s.startsLine t } ts rest s' ∧
      code = own ++ rest := by
  cases h with
  | leaf hcode hrest =>
    cases hown.symm.trans hcode
    exact ⟨_, hrest, rfl⟩
  | pragma hother | newSection hother | knownSection hother | inverted hother | extend hother
  | block hother =>
    rw [leafCode?, hother] at hown
    cases hown

/-- A section is walked inside if its key is new, and then what follows it. -/
theorem Walked.of_section (h : Walked digest source s (t :: ts) code s')
    (hkind : t.kind = .sectionTag) :
    (Entries.has s.sections (sectionKey digest source t) = false ∧
      ∃ body s₁ rest, Walked digest source s t.nodes body s₁ ∧
        Walked digest source
          { s₁ with sections :=
              Entries.insert s₁.sections (sectionKey digest source t) (sectionBody source t body) }
          ts rest s' ∧
        code = .enter (lookupOf s₁.pragmas t.name) (filtersOf s₁.pragmas t.filters)
          (sectionKey digest source t) :: rest) ∨
    (Entries.has s.sections (sectionKey digest source t) = true ∧
      ∃ rest, Walked digest source s ts rest s' ∧
        code = .enter (lookupOf s.pragmas t.name) (filtersOf s.pragmas t.filters)
          (sectionKey digest source t) :: rest) := by
  cases h with
  | newSection _ hnew hbody hrest => exact .inl ⟨hnew, _, _, _, hbody, hrest, rfl⟩
  | knownSection _ hknown hrest => exact .inr ⟨hknown, _, hrest, rfl⟩
  | leaf hcode _ =>
    rw [leafCode?, hkind] at hcode
    cases hcode
  | pragma hother | inverted hother | extend hother | block hother =>
    rw [hkind] at hother
    cases hother

/-- An inverted section is walked inside, and then what follows it. -/
theorem Walked.of_inverted (h : Walked digest source s (t :: ts) code s')
    (hkind : t.kind = .invertedTag) :
    ∃ body s₁ rest, Walked digest source s t.nodes body s₁ ∧ Walked digest source s₁ ts rest s' ∧
      code =
        .inverted (lookupOf s.pragmas t.name) (filtersOf s.pragmas t.filters) body :: rest := by
  cases h with
  | inverted _ hbody hrest => exact ⟨_, _, _, hbody, hrest, rfl⟩
  | leaf hcode _ =>
    rw [leafCode?, hkind] at hcode
    cases hcode
  | pragma hother | newSection hother | knownSection hother | extend hother | block hother =>
    rw [hkind] at hother
    cases hother

/-- A parent tag is walked for its overrides, and then what follows it. -/
theorem Walked.of_parent (h : Walked digest source s (t :: ts) code s')
    (hkind : t.kind = .parentTag) :
    ∃ os s₁ rest, WalkedOverrides digest source s t.nodes os s₁ ∧
      Walked digest source s₁ ts rest s' ∧
      code = .extend (templateNameOf s₁.pragmas t) os :: rest := by
  cases h with
  | extend _ hos hrest => exact ⟨_, _, _, hos, hrest, rfl⟩
  | leaf hcode _ =>
    rw [leafCode?, hkind] at hcode
    cases hcode
  | pragma hother | newSection hother | knownSection hother | inverted hother | block hother =>
    rw [hkind] at hother
    cases hother

/-- A block is walked inside, and then what follows it. -/
theorem Walked.of_block (h : Walked digest source s (t :: ts) code s')
    (hkind : t.kind = .blockVar) :
    ∃ body s₁ rest, Walked digest source s t.nodes body s₁ ∧ Walked digest source s₁ ts rest s' ∧
      code = .block t.name body :: rest := by
  cases h with
  | block _ hbody hrest => exact ⟨_, _, _, hbody, hrest, rfl⟩
  | leaf hcode _ =>
    rw [leafCode?, hkind] at hcode
    cases hcode
  | pragma hother | newSection hother | knownSection hother | inverted hother | extend hother =>
    rw [hkind] at hother
    cases hother

end First

/-! ## The compiler walks so -/

/-- A node by itself, and what is walked after it. -/
def WalkedNode (digest : String → String) (source : String) (s : State) (t : Token)
    (own : List Instr) (s₁ : State) : Prop :=
  ∀ ts code s', Walked digest source s₁ ts code s' →
    Walked digest source s (t :: ts) (own ++ code) s'

mutual

theorem walked_of_walk : ∀ (ts : List Token) {s s' : State} {code : List Instr},
    (walk digest source ts).run s = .ok (code, s') → Walked digest source s ts code s'
  | [], s, s', code, h => by
    rw [walk] at h
    obtain ⟨rfl, rfl⟩ := run_pure h
    exact .nil
  | t :: ts, s, s', code, h => by
    rw [walk] at h
    obtain ⟨own, s₁, hown, h⟩ := run_bind h
    obtain ⟨more, s₂, hmore, h⟩ := run_bind h
    obtain ⟨rfl, rfl⟩ := run_pure h
    exact walkedNode_of_walkNode t hown _ _ _ (walked_of_walk ts hmore)

theorem walkedNode_of_walkNode : ∀ (t : Token) {s s₁ : State} {own : List Instr},
    (walkNode digest source t).run s = .ok (own, s₁) → WalkedNode digest source s t own s₁
  | ⟨kind, line, offset?, name?, text?, delimiters?, dynamic, filters, indent?, stop?, nodes?⟩,
      s, s₁, own, h => by
    intro ts code s' hrest
    cases kind <;> rw [walkNode] at h
    case pragma =>
      cases h
      exact .pragma rfl hrest
    case sectionTag =>
      obtain ⟨_, _, hget, h⟩ := run_bind h
      cases hget
      dsimp only at h
      split at h
      · next hnew =>
        obtain ⟨body, s₂, hbody, h⟩ := run_bind h
        cases h
        have hnew : Entries.has s.sections (sectionKey digest source ⟨.sectionTag, line, offset?,
            name?, text?, delimiters?, dynamic, filters, indent?, stop?, nodes?⟩) = false := by
          simpa [sectionKey] using hnew
        have hmade := Walked.newSection rfl hnew (walked_of_walkInside nodes? hbody) hrest
        exact hmade
      · next hknown =>
        cases h
        exact .knownSection rfl (by simpa [sectionKey] using hknown) hrest
    case invertedTag =>
      obtain ⟨_, _, hget, h⟩ := run_bind h
      cases hget
      obtain ⟨body, s₂, hbody, h⟩ := run_bind h
      cases h
      exact .inverted rfl (walked_of_walkInside nodes? hbody) hrest
    case parentTag =>
      obtain ⟨os, s₂, hos, h⟩ := run_bind h
      cases h
      exact .extend rfl (walkedOverrides_of_walkOverridesInside nodes? hos) hrest
    case blockVar =>
      obtain ⟨body, s₂, hbody, h⟩ := run_bind h
      cases h
      exact .block rfl (walked_of_walkInside nodes? hbody) hrest
    case closingTag | delimiterTag | blockArg => cases h
    all_goals
      cases h
      exact .leaf rfl hrest

theorem walked_of_walkInside : ∀ (nodes? : Option (List Token)) {s s' : State} {code : List Instr},
    (walkInside digest source nodes?).run s = .ok (code, s') →
      Walked digest source s (nodes?.getD []) code s'
  | none, s, s', code, h => by
    rw [walkInside] at h
    obtain ⟨rfl, rfl⟩ := run_pure h
    exact .nil
  | some ts, s, s', code, h => by
    rw [walkInside] at h
    exact walked_of_walk ts h

theorem walkedOverrides_of_walkOverrides :
    ∀ (ts : List Token) {s s' : State} {os : List (String × String)},
      (walkOverrides digest source ts).run s = .ok (os, s') →
        WalkedOverrides digest source s ts os s'
  | [], s, s', os, h => by
    rw [walkOverrides] at h
    obtain ⟨rfl, rfl⟩ := run_pure h
    exact .nil
  | t :: ts, s, s', os, h => by
    rw [walkOverrides] at h
    obtain ⟨own, s₁, hown, h⟩ := run_bind h
    obtain ⟨more, s₂, hmore, h⟩ := run_bind h
    obtain ⟨rfl, rfl⟩ := run_pure h
    exact walkedOverrides_of_walkOverride t hown _ _ _ (walkedOverrides_of_walkOverrides ts hmore)

theorem walkedOverrides_of_walkOverride :
    ∀ (t : Token) {s s₁ : State} {own : List (String × String)},
      (walkOverride digest source t).run s = .ok (own, s₁) →
        ∀ ts os s', WalkedOverrides digest source s₁ ts os s' →
          WalkedOverrides digest source s (t :: ts) (own ++ os) s'
  | ⟨kind, line, offset?, name?, text?, delimiters?, dynamic, filters, indent?, stop?, nodes?⟩,
      s, s₁, own, h => by
    intro ts os s' hrest
    rw [walkOverride] at h
    split at h
    · next hkind =>
      obtain ⟨body, s₂, hbody, h⟩ := run_bind h
      cases h
      exact .override hkind (walked_of_walkInside nodes? hbody) hrest
    · next hkind =>
      obtain ⟨rfl, rfl⟩ := run_pure h
      exact .skip hkind hrest

theorem walkedOverrides_of_walkOverridesInside :
    ∀ (nodes? : Option (List Token)) {s s' : State} {os : List (String × String)},
      (walkOverridesInside digest source nodes?).run s = .ok (os, s') →
        WalkedOverrides digest source s (nodes?.getD []) os s'
  | none, s, s', os, h => by
    rw [walkOverridesInside] at h
    obtain ⟨rfl, rfl⟩ := run_pure h
    exact .nil
  | some ts, s, s', os, h => by
    rw [walkOverridesInside] at h
    exact walkedOverrides_of_walkOverrides ts h

end

end Compile

/-- **A compiled program is the code of its nodes**, walked with nothing on file
at first, and what is on file in the end. -/
theorem Program.exists_walked {digest : String → String} {pragmas : List Pragma}
    {settings : CompileSettings} {name source : String} {nodes : List Token} {p : Program}
    (h : compile digest pragmas settings name source nodes = .ok p) :
    ∃ body s,
      Compile.Walked digest source ⟨PragmaSet.ofPragmas pragmas, [], [], true⟩ nodes body s ∧
      p = ⟨name, settings.strictCallables,
        if settings.customEscape then .custom else .html settings.entityFlags, body, s.sections,
        s.blocks⟩ := by
  unfold compile at h
  obtain ⟨⟨body, s⟩, hwalk, h⟩ := exists_of_bind_eq_ok h
  cases h
  exact ⟨body, s, Compile.walked_of_walk nodes hwalk, rfl⟩

end Mustache
