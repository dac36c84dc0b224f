import Mustache.Proofs.Apart
import Mustache.Proofs.Linked
/-!
# Mustache — code of nodes

`CodeOf` says that a list of instructions is code of some nodes, given what
is filed: each section tag runs a body that is filed for its text and is
code of its own nodes, and likewise for overrides. It says nothing about
keys, so it holds of the code that the compiler makes and of the code in
which sections are kept apart.

Code of nodes is code of any nodes that differ in their places only
(`CodeOf.of_placeless`), and two lists of code of the same nodes are linked
(`linked_of_codeOf`), so the renderer cannot tell them apart.
-/

namespace Mustache

namespace Compile

/-- What is filed. -/
structure Tables where
  sections : Entries SectionBody
  blocks : Entries (List Instr)

def State.tables (s : State) : Tables := ⟨s.sections, s.blocks⟩

/-- What is filed in one place is filed in another, under the same key. -/
structure Tables.Within (T T' : Tables) : Prop where
  sections : ∀ key body, Entries.get? T.sections key = some body →
    Entries.get? T'.sections key = some body
  blocks : ∀ key body, Entries.get? T.blocks key = some body →
    Entries.get? T'.blocks key = some body

theorem Tables.Within.refl (T : Tables) : T.Within T := ⟨fun _ _ h => h, fun _ _ h => h⟩

theorem Tables.Within.trans {T T' T'' : Tables} (h : T.Within T') (h' : T'.Within T'') :
    T.Within T'' :=
  ⟨fun key body hget => h'.sections key body (h.sections key body hget),
    fun key body hget => h'.blocks key body (h.blocks key body hget)⟩

variable (T : Tables) (pragmas : PragmaSet) (source : String)

mutual

/-- **Code of nodes**, reached where a line starts or where none does. If
that is left open, so are the flags of the instructions. -/
inductive CodeOf : Option Bool → List Token → List Instr → Prop
  | nil {starts : Option Bool} : CodeOf starts [] []
  | leaf {starts : Option Bool} {flag : Bool} {t : Token} {ts : List Token}
      {own code : List Instr} :
      leafCode? pragmas flag t = some own → (∀ b ∈ starts, flag = b) →
      CodeOf (starts.map (startsAfterLeaf · t)) ts code → CodeOf starts (t :: ts) (own ++ code)
  | enter {starts : Option Bool} {t : Token} {ts : List Token} {key : String}
      {body code : List Instr} :
      t.kind = .sectionTag → Entries.get? T.sections key = some (sectionBody source t body) →
      CodeOf starts t.nodes body →
      CodeOf (starts.map (startsAfter · (visited false t.nodes))) ts code →
      CodeOf starts (t :: ts)
        (.enter (lookupOf pragmas t.name) (filtersOf pragmas t.filters) key :: code)
  | inverted {starts : Option Bool} {t : Token} {ts : List Token} {body code : List Instr} :
      t.kind = .invertedTag → CodeOf starts t.nodes body →
      CodeOf (starts.map (startsAfter · (visited false t.nodes))) ts code →
      CodeOf starts (t :: ts)
        (.inverted (lookupOf pragmas t.name) (filtersOf pragmas t.filters) body :: code)
  | extend {starts : Option Bool} {t : Token} {ts : List Token} {os : List (String × String)}
      {code : List Instr} :
      t.kind = .parentTag → OverridesOf starts t.nodes os →
      CodeOf (starts.map (startsAfter · (visited true t.nodes))) ts code →
      CodeOf starts (t :: ts) (.extend (templateNameOf pragmas t) os :: code)
  | block {starts : Option Bool} {t : Token} {ts : List Token} {body code : List Instr} :
      t.kind = .blockVar → CodeOf starts t.nodes body →
      CodeOf (starts.map (startsAfter · (visited false t.nodes))) ts code →
      CodeOf starts (t :: ts) (.block t.name body :: code)

/-- Overrides of the nodes inside a parent tag. -/
inductive OverridesOf : Option Bool → List Token → List (String × String) → Prop
  | nil {starts : Option Bool} : OverridesOf starts [] []
  | skip {starts : Option Bool} {t : Token} {ts : List Token} {os : List (String × String)} :
      t.kind ≠ .blockArg → OverridesOf starts ts os → OverridesOf starts (t :: ts) os
  | override {starts : Option Bool} {t : Token} {ts : List Token} {key : String}
      {body : List Instr} {os : List (String × String)} :
      t.kind = .blockArg → Entries.get? T.blocks key = some body → CodeOf starts t.nodes body →
      OverridesOf (starts.map (startsAfter · (visited false t.nodes))) ts os →
      OverridesOf starts (t :: ts) ((t.name, key) :: os)

end

/-! ## More may be filed -/

section Within

variable {T pragmas source}
variable {T' : Tables}

mutual

/-- Code of nodes stays code of them while more is filed. -/
theorem CodeOf.mono (h : T.Within T') :
    ∀ {starts : Option Bool} {ts : List Token} {code : List Instr},
      CodeOf T pragmas source starts ts code → CodeOf T' pragmas source starts ts code
  | _, _, _, .nil => .nil
  | _, _, _, .leaf hcode hflag hmore => .leaf hcode hflag (hmore.mono h)
  | _, _, _, .enter hkind hfiled hbody hmore =>
    .enter hkind (h.sections _ _ hfiled) (hbody.mono h) (hmore.mono h)
  | _, _, _, .inverted hkind hbody hmore => .inverted hkind (hbody.mono h) (hmore.mono h)
  | _, _, _, .extend hkind hos hmore => .extend hkind (hos.mono h) (hmore.mono h)
  | _, _, _, .block hkind hbody hmore => .block hkind (hbody.mono h) (hmore.mono h)

theorem OverridesOf.mono (h : T.Within T') :
    ∀ {starts : Option Bool} {ts : List Token} {os : List (String × String)},
      OverridesOf T pragmas source starts ts os → OverridesOf T' pragmas source starts ts os
  | _, _, _, .nil => .nil
  | _, _, _, .skip hkind hmore => .skip hkind (hmore.mono h)
  | _, _, _, .override hkind hfiled hbody hmore =>
    .override hkind (h.blocks _ _ hfiled) (hbody.mono h) (hmore.mono h)

end

end Within

/-! ## Places do not matter -/

section Placeless

variable {T pragmas source}

/-- Two nodes that differ in their places only. -/
structure SameNode (source : String) (t u : Token) : Prop where
  kind : u.kind = t.kind
  name : u.name = t.name
  filters : u.filters = t.filters
  nodes : placelessAll source u.nodes = placelessAll source t.nodes
  leafCode : ∀ pragmas flag, leafCode? pragmas flag u = leafCode? pragmas flag t
  startsAfter : ∀ starts, startsAfterLeaf starts u = startsAfterLeaf starts t
  templateName : ∀ pragmas, templateNameOf pragmas u = templateNameOf pragmas t
  body : t.kind = .sectionTag → ∀ body, sectionBody source u body = sectionBody source t body

theorem SameNode.of_placeless {t u : Token} (h : placeless source t = placeless source u) :
    SameNode source t u := by
  obtain ⟨kind, _, _, name?, text?, delimiters?, dynamic, filters, indent?, _, nodes?⟩ := t
  obtain ⟨kind', _, _, name?', text?', delimiters?', dynamic', filters', indent?', _, nodes?'⟩ := u
  rw [placeless, placeless, Token.mk.injEq] at h
  obtain ⟨rfl, -, -, rfl, htext, rfl, rfl, rfl, rfl, -, hnodes⟩ := h
  have hinside : placelessAll source (nodes?'.getD []) = placelessAll source (nodes?.getD []) := by
    rw [placelessInside_eq, placelessInside_eq] at hnodes
    cases nodes? <;> cases nodes?' <;> simp_all [placelessAll]
  -- A section is told by the text between its tags, any other node by its own text.
  by_cases hsection : kind = .sectionTag
  · subst hsection
    rw [if_pos rfl, if_pos rfl, Option.some.injEq] at htext
    refine ⟨rfl, rfl, rfl, hinside, fun _ _ => rfl, fun _ => rfl, fun _ => rfl, fun _ body => ?_⟩
    rw [sectionBody, sectionBody, htext]
  · rw [if_neg hsection, if_neg hsection] at htext
    subst htext
    exact ⟨rfl, rfl, rfl, hinside, fun _ _ => rfl, fun _ => rfl, fun _ => rfl,
      fun h => absurd h hsection⟩

/-- The same nodes are visited, up to their places. -/
theorem SameNode.visited {t u : Token} (h : SameNode source t u) (starts : Option Bool)
    (inParent : Bool) :
    starts.map (Compile.startsAfter · (visited inParent u.nodes)) =
      starts.map (Compile.startsAfter · (visited inParent t.nodes)) := by
  congr 1
  funext b
  rw [← startsAfter_map_placeless, ← visited_placeless, h.nodes, visited_placeless,
    startsAfter_map_placeless]

theorem placelessAll_cons {t : Token} {ts us : List Token}
    (h : placelessAll source (t :: ts) = placelessAll source us) :
    ∃ u us', us = u :: us' ∧ SameNode source t u ∧
      placelessAll source ts = placelessAll source us' := by
  cases us with
  | nil => rw [placelessAll, placelessAll] at h; cases h
  | cons u us' =>
    rw [placelessAll, placelessAll] at h
    obtain ⟨hnode, hrest⟩ := List.cons.inj h
    exact ⟨u, us', rfl, .of_placeless hnode, hrest⟩

mutual

/-- **Code of nodes is code of the same nodes elsewhere.** -/
theorem CodeOf.of_placeless : ∀ {starts : Option Bool} {ts us : List Token} {code : List Instr},
    CodeOf T pragmas source starts ts code → placelessAll source ts = placelessAll source us →
      CodeOf T pragmas source starts us code
  | _, _, us, _, .nil, h => by
    cases us with
    | nil => exact .nil
    | cons u us => rw [placelessAll, placelessAll] at h; cases h
  | _, _, _, _, .leaf hcode hflag hmore, h => by
    obtain ⟨u, us, rfl, hnode, hrest⟩ := placelessAll_cons h
    refine .leaf ((hnode.leafCode _ _).trans hcode) hflag ?_
    simp only [hnode.startsAfter]
    exact hmore.of_placeless hrest
  | starts, _, _, _, .enter hkind hfiled hbody hmore, h => by
    obtain ⟨u, us, rfl, hnode, hrest⟩ := placelessAll_cons h
    rw [← hnode.name, ← hnode.filters]
    refine .enter (hnode.kind.trans hkind) ?_ (hbody.of_placeless hnode.nodes.symm) ?_
    · rw [hnode.body hkind]
      exact hfiled
    · rw [hnode.visited]
      exact hmore.of_placeless hrest
  | _, _, _, _, .inverted hkind hbody hmore, h => by
    obtain ⟨u, us, rfl, hnode, hrest⟩ := placelessAll_cons h
    rw [← hnode.name, ← hnode.filters]
    refine .inverted (hnode.kind.trans hkind) (hbody.of_placeless hnode.nodes.symm) ?_
    rw [hnode.visited]
    exact hmore.of_placeless hrest
  | _, _, _, _, .extend hkind hos hmore, h => by
    obtain ⟨u, us, rfl, hnode, hrest⟩ := placelessAll_cons h
    rw [← hnode.templateName]
    refine .extend (hnode.kind.trans hkind) (hos.of_placeless hnode.nodes.symm) ?_
    rw [hnode.visited]
    exact hmore.of_placeless hrest
  | _, _, _, _, .block hkind hbody hmore, h => by
    obtain ⟨u, us, rfl, hnode, hrest⟩ := placelessAll_cons h
    rw [← hnode.name]
    refine .block (hnode.kind.trans hkind) (hbody.of_placeless hnode.nodes.symm) ?_
    rw [hnode.visited]
    exact hmore.of_placeless hrest

theorem OverridesOf.of_placeless :
    ∀ {starts : Option Bool} {ts us : List Token} {os : List (String × String)},
      OverridesOf T pragmas source starts ts os → placelessAll source ts = placelessAll source us →
        OverridesOf T pragmas source starts us os
  | _, _, us, _, .nil, h => by
    cases us with
    | nil => exact .nil
    | cons u us => rw [placelessAll, placelessAll] at h; cases h
  | _, _, _, _, .skip hkind hmore, h => by
    obtain ⟨u, us, rfl, hnode, hrest⟩ := placelessAll_cons h
    refine .skip ?_ (hmore.of_placeless hrest)
    rw [hnode.kind]
    exact hkind
  | _, _, _, _, .override hkind hfiled hbody hmore, h => by
    obtain ⟨u, us, rfl, hnode, hrest⟩ := placelessAll_cons h
    rw [← hnode.name]
    refine .override (hnode.kind.trans hkind) hfiled (hbody.of_placeless hnode.nodes.symm) ?_
    rw [hnode.visited]
    exact hmore.of_placeless hrest

end

end Placeless

/-! ## Code of the same nodes -/

section Linking

variable {pragmas source}
variable {T' : Tables} {lines : Bool}

/-- The flags of code count if lines do. -/
def Counts (lines : Bool) (starts : Option Bool) : Prop := lines = true → starts.isSome = true

/-- Keys correspond under which code of the same nodes is filed. -/
def keying (lines : Bool) (pragmas : PragmaSet) (source : String) (T T' : Tables) : Keying where
  lines := lines
  sections key key' := ∃ starts t body body', Counts lines starts ∧
    Entries.get? T.sections key = some (sectionBody source t body) ∧
    Entries.get? T'.sections key' = some (sectionBody source t body') ∧
    CodeOf T pragmas source starts t.nodes body ∧ CodeOf T' pragmas source starts t.nodes body'
  blocks key key' := ∃ starts ts body body', Counts lines starts ∧
    Entries.get? T.blocks key = some body ∧ Entries.get? T'.blocks key' = some body' ∧
    CodeOf T pragmas source starts ts body ∧ CodeOf T' pragmas source starts ts body'

theorem alike_leafCode {ρ : Keying} {t : Token} {flag flag' : Bool} {own own' : List Instr}
    (h : leafCode? pragmas flag t = some own) (h' : leafCode? pragmas flag' t = some own')
    (hflag : ρ.lines = true → flag = flag') : Instr.AllAlike ρ own own' := by
  unfold leafCode? at h h'
  cases hkind : t.kind <;> rw [hkind] at h h' <;> cases h <;> cases h'
  case comment => exact .nil
  case partialTag => exact .cons .insertPartial .nil
  case text => exact .cons (.text hflag) .nil
  all_goals exact .cons (.interpolate hflag) .nil

variable {T}

theorem Counts.map {starts : Option Bool} (h : Counts lines starts) (f : Bool → Bool) :
    Counts lines (starts.map f) := by
  intro hlines
  rw [Option.isSome_map]
  exact h hlines

mutual

/-- Code of the same nodes corresponds, each kind of node to itself. -/
theorem CodeOf.alike : ∀ {starts : Option Bool} {ts : List Token} {code code' : List Instr},
    CodeOf T pragmas source starts ts code → CodeOf T' pragmas source starts ts code' →
      Counts lines starts → Instr.AllAlike (keying lines pragmas source T T') code code'
  | _, _, _, _, .nil, h', _ => by
    cases h'
    exact .nil
  | starts, _, _, _, .leaf hcode hflag hmore, h', hcounts => by
    cases h' with
    | leaf hcode' hflag' hmore' =>
      refine (alike_leafCode hcode hcode' ?_).append (hmore.alike hmore' (hcounts.map _))
      intro hlines
      obtain ⟨b, rfl⟩ := Option.isSome_iff_exists.1 (hcounts hlines)
      exact (hflag b rfl).trans (hflag' b rfl).symm
    | _ => simp_all [leafCode?]
  | _, _, _, _, .enter hkind hfiled hbody hmore, h', hcounts => by
    cases h' with
    | enter _ hfiled' hbody' hmore' =>
      refine .cons (.enter ?_) (hmore.alike hmore' (hcounts.map _))
      exact ⟨_, _, _, _, hcounts, hfiled, hfiled', hbody, hbody'⟩
    | _ => simp_all [leafCode?]
  | _, _, _, _, .inverted hkind hbody hmore, h', hcounts => by
    cases h' with
    | inverted _ hbody' hmore' =>
      exact .cons (.inverted (hbody.alike hbody' hcounts)) (hmore.alike hmore' (hcounts.map _))
    | _ => simp_all [leafCode?]
  | _, _, _, _, .extend hkind hos hmore, h', hcounts => by
    cases h' with
    | extend _ hos' hmore' =>
      exact .cons (.extend (hos.alike hos' hcounts)) (hmore.alike hmore' (hcounts.map _))
    | _ => simp_all [leafCode?]
  | _, _, _, _, .block hkind hbody hmore, h', hcounts => by
    cases h' with
    | block _ hbody' hmore' =>
      exact .cons (.block (hbody.alike hbody' hcounts)) (hmore.alike hmore' (hcounts.map _))
    | _ => simp_all [leafCode?]

theorem OverridesOf.alike :
    ∀ {starts : Option Bool} {ts : List Token} {os os' : List (String × String)},
      OverridesOf T pragmas source starts ts os → OverridesOf T' pragmas source starts ts os' →
        Counts lines starts → (keying lines pragmas source T T').Overrides os os'
  | _, _, _, _, .nil, h', _ => by
    cases h'
    exact .nil
  | _, _, _, _, .skip hkind hmore, h', hcounts => by
    cases h' with
    | skip _ hmore' => exact hmore.alike hmore' hcounts
    | override hkind' => exact absurd hkind' hkind
  | _, _, _, _, .override hkind hfiled hbody hmore, h', hcounts => by
    cases h' with
    | skip hkind' _ => exact absurd hkind hkind'
    | override _ hfiled' hbody' hmore' =>
      refine .cons ⟨rfl, ?_⟩ (hmore.alike hmore' (hcounts.map _))
      exact ⟨_, _, _, _, hcounts, hfiled, hfiled', hbody, hbody'⟩

end

end Linking

end Compile

/-- What is filed for a program. -/
def Program.tables (p : Program) : Compile.Tables := ⟨p.sections, p.blocks⟩

/-- **Programs with code of the same nodes are linked.** -/
theorem Program.linked_of_codeOf {pragmas : PragmaSet} {source : String} {lines : Bool}
    {starts : Option Bool} {nodes : List Token} {p p' : Program}
    (hstrict : p'.strictCallables = p.strictCallables) (hescaping : p'.escaping = p.escaping)
    (h : Compile.CodeOf p.tables pragmas source starts nodes p.body)
    (h' : Compile.CodeOf p'.tables pragmas source starts nodes p'.body)
    (hcounts : Compile.Counts lines starts) :
    p.Linked (fun _ => True) (Compile.keying lines pragmas source p.tables p'.tables) p' where
  strict := hstrict
  escaping := hescaping
  body := h.alike h' hcounts
  sections := by
    rintro key key' ⟨starts, t, body, body', hcounts, hfiled, hfiled', hbody, hbody'⟩
    change Option.Rel _ (Entries.get? p.tables.sections key) (Entries.get? p'.tables.sections key')
    rw [hfiled, hfiled']
    exact .some ⟨rfl, rfl, trivial, hbody.alike hbody' hcounts⟩
  blocks := by
    rintro key key' ⟨starts, ts, body, body', hcounts, hfiled, hfiled', hbody, hbody'⟩
    change Option.Rel _ (Entries.get? p.tables.blocks key) (Entries.get? p'.tables.blocks key')
    rw [hfiled, hfiled']
    exact .some (hbody.alike hbody' hcounts)

end Mustache
