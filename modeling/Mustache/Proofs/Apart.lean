import Mustache.Proofs.Walk
/-!
# Mustache — sections kept apart

The compiler files a section once for all the tags that have its text
under its delimiters, and walks the nodes of the first such tag only.
`Program.compileApart` is the compiler that does not: every section tag is
filed by itself, with the code of its own nodes, and the keys are numbers.

Whether the two compilers do the same depends on what the tags of one text
have in common beyond that text: their nodes must be trimmed alike
(`TrimmedAlike`), and, where lines are indented, the tags must stand alike
with respect to the start of a line (`LinedAlike`).
-/

namespace Mustache

namespace Compile

/-! ## Compiling every section -/

mutual

/-- The instructions of nodes, every section filed by itself. -/
def walkApart (digest : String → String) (source : String) : List Token → Walk (List Instr)
  | [] => return []
  | t :: ts => do
    let code ← walkApartNode digest source t
    let more ← walkApart digest source ts
    return code ++ more

/-- The instructions of a node. -/
def walkApartNode (digest : String → String) (source : String) : Token → Walk (List Instr)
  | t@⟨kind, _, _, _, _, delimiters?, _, filters, _, _, nodes?⟩ => do
    match kind with
    | .sectionTag =>
      let body ← walkApartInside digest source nodes?
      let key := toString (← get).sections.length
      let filed : SectionBody :=
        ⟨sectionSource source t, Delimiters.unlessStandard delimiters?, body⟩
      modify fun s => { s with sections := Entries.insert s.sections key filed }
      let pragmas := (← get).pragmas
      return [.enter (lookupOf pragmas t.name) (filtersOf pragmas filters) key]
    | .invertedTag =>
      let pragmas := (← get).pragmas
      let body ← walkApartInside digest source nodes?
      return [.inverted (lookupOf pragmas t.name) (filtersOf pragmas filters) body]
    | .parentTag =>
      let overrides ← walkApartOverridesInside digest source nodes?
      return [.extend (templateNameOf (← get).pragmas t) overrides]
    | .blockVar =>
      let body ← walkApartInside digest source nodes?
      return [.block t.name body]
    -- the others enclose nothing
    | _ => walkNode digest source t

/-- The instructions of the nodes inside a tag. -/
def walkApartInside (digest : String → String) (source : String) :
    Option (List Token) → Walk (List Instr)
  | none => return []
  | some ts => walkApart digest source ts

/-- The overrides among the nodes inside a parent tag. -/
def walkApartOverrides (digest : String → String) (source : String) :
    List Token → Walk (List (String × String))
  | [] => return []
  | t :: ts => do
    let own ← walkApartOverride digest source t
    let more ← walkApartOverrides digest source ts
    return own ++ more

/-- The override that a node is, if it is one. -/
def walkApartOverride (digest : String → String) (source : String) :
    Token → Walk (List (String × String))
  | t@⟨kind, _, _, _, _, _, _, _, _, _, nodes?⟩ => do
    if kind = .blockArg then
      let body ← walkApartInside digest source nodes?
      let key := digest (Instr.bodyText body)
      modify fun s => { s with blocks := Entries.insertNew s.blocks key body }
      return [(t.name, key)]
    else return []

/-- The overrides inside a parent tag. -/
def walkApartOverridesInside (digest : String → String) (source : String) :
    Option (List Token) → Walk (List (String × String))
  | none => return []
  | some ts => walkApartOverrides digest source ts

end

end Compile

/-- **The program in which sections are kept apart.** -/
def Program.compileApart (digest : String → String) (pragmas : List Pragma)
    (settings : CompileSettings) (name source : String) (nodes : List Token) :
    Except Error Program := do
  let (body, s) ←
    (Compile.walkApart digest source nodes).run ⟨PragmaSet.ofPragmas pragmas, [], [], true⟩
  return {
    name := name
    strictCallables := settings.strictCallables
    escaping := if settings.customEscape then .custom else .html settings.entityFlags
    body := body
    sections := s.sections
    blocks := s.blocks }

namespace Compile

/-! ## The nodes that the compiler comes to -/

mutual

/-- The nodes that the compiler comes to, each one before those inside it.
Inside a parent tag it comes to overrides only. -/
def visited (inParent : Bool) : List Token → List Token
  | [] => []
  | t :: ts =>
    (if inParent && t.kind ≠ .blockArg then [] else visitedNode t) ++ visited inParent ts

/-- A node, and the nodes inside it. -/
def visitedNode : Token → List Token
  | t@⟨kind, _, _, _, _, _, _, _, _, _, nodes?⟩ =>
    match kind with
    | .parentTag => t :: visitedInside true nodes?
    | .sectionTag | .invertedTag | .blockVar | .blockArg => t :: visitedInside false nodes?
    | _ => [t]

/-- The nodes inside a tag. -/
def visitedInside (inParent : Bool) : Option (List Token) → List Token
  | none => []
  | some ts => visited inParent ts

end

/-- Whether a line starts after some nodes. -/
def startsAfter (starts : Bool) (nodes : List Token) : Bool := nodes.foldl startsAfterLeaf starts

/-! ## What a node is apart from its place -/

mutual

/-- A node without its place in the template: a section has its text in
place of the offsets that the text is cut out by. -/
def placeless (source : String) : Token → Token
  | t@⟨kind, _, _, name?, text?, delimiters?, dynamic, filters, indent?, _, nodes?⟩ =>
    ⟨kind, 0, none, name?,
      if kind = .sectionTag then some (sectionSource source t) else text?,
      delimiters?, dynamic, filters, indent?, none, placelessInside source nodes?⟩

/-- The nodes inside a tag without their places. -/
def placelessInside (source : String) : Option (List Token) → Option (List Token)
  | none => none
  | some ts => some (placelessAll source ts)

/-- Nodes without their places. -/
def placelessAll (source : String) : List Token → List Token
  | [] => []
  | t :: ts => placeless source t :: placelessAll source ts

end

/-! ## Tags of one text -/

/-- Two section tags have the same text under the same delimiters. -/
structure SameSection (source : String) (t u : Token) : Prop where
  kind : t.kind = .sectionTag
  kind' : u.kind = .sectionTag
  delimiters : Delimiters.unlessStandard t.delimiters? = Delimiters.unlessStandard u.delimiters?
  text : sectionSource source t = sectionSource source u

/-- **Repeated sections are trimmed alike**: two section tags of one text
have the same nodes inside, up to where these stand. -/
def TrimmedAlike (source : String) (nodes : List Token) : Prop :=
  ∀ before t between u after, visited false nodes = before ++ t :: between ++ u :: after →
    SameSection source t u → placelessAll source t.nodes = placelessAll source u.nodes

/-- **Repeated sections stand alike**: they are reached where a line
starts, or where none does, and what is inside leaves that as it was. -/
def LinedAlike (source : String) (nodes : List Token) : Prop :=
  ∀ before t between u after, visited false nodes = before ++ t :: between ++ u :: after →
    SameSection source t u →
    startsAfter true (before ++ t :: between) = startsAfter true before ∧
      startsAfter (startsAfter true before) (visited false u.nodes) = startsAfter true before

/-! ### Walking on -/

section Visited

variable {t : Token} {ts : List Token}

@[simp] theorem visited_nil (inParent : Bool) : visited inParent [] = [] := by rw [visited]

@[simp] theorem visited_cons : visited false (t :: ts) = visitedNode t ++ visited false ts := by
  rw [visited]
  simp

theorem visited_cons_of_override (h : t.kind = .blockArg) :
    visited true (t :: ts) = visitedNode t ++ visited true ts := by
  rw [visited]
  simp [h]

theorem visited_cons_of_scaffolding (h : t.kind ≠ .blockArg) :
    visited true (t :: ts) = visited true ts := by
  rw [visited]
  simp [h]

theorem visitedInside_eq (inParent : Bool) (nodes? : Option (List Token)) :
    visitedInside inParent nodes? = visited inParent (nodes?.getD []) := by
  cases nodes? <;> simp [visitedInside]

/-- The tags whose nodes the compiler walks in order. -/
def Encloses (t : Token) : Prop :=
  t.kind = .sectionTag ∨ t.kind = .invertedTag ∨ t.kind = .blockVar ∨ t.kind = .blockArg

theorem visitedNode_of_encloses (h : Encloses t) :
    visitedNode t = t :: visited false t.nodes := by
  obtain ⟨kind, _, _, _, _, _, _, _, _, _, nodes?⟩ := t
  rcases h with h | h | h | h <;> cases h <;> rw [visitedNode, visitedInside_eq] <;> rfl

theorem visitedNode_of_parent (h : t.kind = .parentTag) :
    visitedNode t = t :: visited true t.nodes := by
  obtain ⟨kind, _, _, _, _, _, _, _, _, _, nodes?⟩ := t
  cases h
  rw [visitedNode, visitedInside_eq]
  rfl

theorem visitedNode_of_leaf {pragmas : PragmaSet} {starts : Bool} {own : List Instr}
    (h : leafCode? pragmas starts t = some own) : visitedNode t = [t] := by
  obtain ⟨kind, _, _, _, _, _, _, _, _, _, nodes?⟩ := t
  cases kind <;> first | rfl | cases h

theorem visitedNode_of_pragma (h : t.kind = .pragma) : visitedNode t = [t] := by
  obtain ⟨kind, _, _, _, _, _, _, _, _, _, nodes?⟩ := t
  cases h
  rfl

theorem startsAfterLeaf_of_encloses (h : Encloses t) (starts : Bool) :
    startsAfterLeaf starts t = starts := by
  rcases h with h | h | h | h <;> simp [startsAfterLeaf, h]

theorem startsAfterLeaf_of_parent (h : t.kind = .parentTag) (starts : Bool) :
    startsAfterLeaf starts t = starts := by
  simp [startsAfterLeaf, h]

end Visited

/-! ### Places do not matter -/

section Placeless

variable {source : String}

theorem placeless_eq (t : Token) : placeless source t =
    { t with
      line := 0, offset? := none, stop? := none
      text? := if t.kind = .sectionTag then some (sectionSource source t) else t.text?
      nodes? := placelessInside source t.nodes? } := by
  cases t
  rfl

theorem placelessInside_eq (nodes? : Option (List Token)) :
    placelessInside source nodes? = nodes?.map (placelessAll source) := by
  cases nodes? <;> rfl

theorem placeless_kind (t : Token) : (placeless source t).kind = t.kind := by
  rw [placeless_eq]

/-- Only the text of a section is changed, which ends no line. -/
theorem startsAfterLeaf_placeless (starts : Bool) (t : Token) :
    startsAfterLeaf starts (placeless source t) = startsAfterLeaf starts t := by
  have hends (hkind : t.kind = .text) : (placeless source t).endsLine = t.endsLine := by
    rw [placeless_eq, hkind]
    rfl
  unfold startsAfterLeaf
  rw [placeless_kind]
  split
  case h_4 hkind => exact hends hkind
  all_goals rfl

mutual

theorem visited_placeless (inParent : Bool) : ∀ ts : List Token,
    visited inParent (placelessAll source ts) = (visited inParent ts).map (placeless source)
  | [] => by simp [placelessAll]
  | t :: ts => by
    rw [placelessAll, visited, visited, placeless_kind, visited_placeless inParent ts,
      visitedNode_placeless t]
    split <;> simp

theorem visitedNode_placeless : ∀ t : Token,
    visitedNode (placeless source t) = (visitedNode t).map (placeless source)
  | ⟨kind, line, offset?, name?, text?, delimiters?, dynamic, filters, indent?, stop?, nodes?⟩ => by
    cases kind <;> simp [placeless, visitedNode, visitedInside_placeless _ nodes?]

theorem visitedInside_placeless (inParent : Bool) : ∀ nodes? : Option (List Token),
    visitedInside inParent (placelessInside source nodes?) =
      (visitedInside inParent nodes?).map (placeless source)
  | none => by simp [placelessInside, visitedInside]
  | some ts => by rw [placelessInside, visitedInside, visitedInside, visited_placeless inParent ts]

end

theorem startsAfter_map_placeless (starts : Bool) (nodes : List Token) :
    startsAfter starts (nodes.map (placeless source)) = startsAfter starts nodes := by
  unfold startsAfter
  induction nodes generalizing starts with
  | nil => rfl
  | cons t nodes ih => rw [List.map_cons, List.foldl_cons, List.foldl_cons, ih,
      startsAfterLeaf_placeless]

end Placeless

/-! ### What is inside a node -/

mutual

/-- A node stands with those inside it, wherever it is. -/
theorem visitedNode_isInfix {u : Token} : ∀ (inParent : Bool) (ts : List Token),
    u ∈ visited inParent ts → visitedNode u <:+: visited inParent ts
  | inParent, [], h => by
    rw [visited_nil] at h
    cases h
  | inParent, t :: ts, h => by
    rw [visited] at h ⊢
    rcases List.mem_append.1 h with h | h
    · refine List.IsInfix.trans ?_ (List.prefix_append _ _).isInfix
      split at h
      · cases h
      · next hnot =>
        rw [if_neg hnot]
        exact visitedNode_isInfix_node t h
    · exact (visitedNode_isInfix inParent ts h).trans (List.suffix_append _ _).isInfix

theorem visitedNode_isInfix_node {u : Token} : ∀ t : Token,
    u ∈ visitedNode t → visitedNode u <:+: visitedNode t
  | ⟨kind, _, _, _, _, _, _, _, _, _, nodes?⟩, h => by
    cases kind
    case sectionTag | invertedTag | blockVar | blockArg =>
      rw [visitedNode] at h
      rcases List.mem_cons.1 h with rfl | h
      · exact List.infix_rfl
      · exact (visitedNode_isInfix_inside false nodes? h).trans (List.suffix_cons _ _).isInfix
    case parentTag =>
      rw [visitedNode] at h
      rcases List.mem_cons.1 h with rfl | h
      · exact List.infix_rfl
      · exact (visitedNode_isInfix_inside true nodes? h).trans (List.suffix_cons _ _).isInfix
    all_goals
      obtain rfl := List.mem_singleton.1 h
      exact List.infix_rfl

theorem visitedNode_isInfix_inside {u : Token} :
    ∀ (inParent : Bool) (nodes? : Option (List Token)), u ∈ visitedInside inParent nodes? →
      visitedNode u <:+: visitedInside inParent nodes?
  | inParent, none, h => by
    rw [visitedInside] at h
    cases h
  | inParent, some ts, h => by
    rw [visitedInside] at h ⊢
    exact visitedNode_isInfix inParent ts h

end

/-! ### Where every line ends -/

/-- If no node leaves a line begun, lines start everywhere. -/
theorem startsAfter_of_forall {nodes : List Token}
    (h : ∀ t ∈ nodes, startsAfterLeaf true t = true) : startsAfter true nodes = true := by
  unfold startsAfter
  induction nodes with
  | nil => rfl
  | cons t nodes ih =>
    rw [List.foldl_cons, h t List.mem_cons_self]
    exact ih fun u hu => h u (List.mem_cons_of_mem t hu)

/-- So repeated sections stand alike if every text ends its line and there
are no variables. -/
theorem linedAlike_of_forall {source : String} {nodes : List Token}
    (h : ∀ t ∈ visited false nodes, startsAfterLeaf true t = true) :
    LinedAlike source nodes := by
  intro before t between u after hplaces hsame
  have hu : u ∈ visited false nodes := by
    rw [hplaces]
    simp
  have hinside : visited false u.nodes ⊆ visited false nodes := by
    have hinfix := visitedNode_isInfix false nodes hu
    rw [visitedNode_of_encloses (.inl hsame.kind')] at hinfix
    exact fun v hv => hinfix.subset (List.mem_cons_of_mem u hv)
  have hbefore : startsAfter true before = true := by
    refine startsAfter_of_forall fun v hv => h v ?_
    rw [hplaces]
    simp [hv]
  have hbetween : startsAfter true (before ++ t :: between) = true := by
    refine startsAfter_of_forall fun v hv => h v ?_
    rw [hplaces]
    exact List.mem_append_left _ hv
  rw [hbetween, hbefore]
  exact ⟨rfl, startsAfter_of_forall fun v hv => h v (hinside hv)⟩

end Compile

end Mustache
