import Mustache.Proofs.SharedWalk
/-!
# Mustache — the walk that keeps sections apart

The other compiler walks every node. Wherever there is code of some nodes
at all, it gives code of them, too (`CodeOf.walkApart`): it refuses no node
that the first compiler takes, files each section under a number that no
other section has, and keeps track of the lines in the same way.
-/

namespace Mustache

namespace Compile

/-! ## Steps of the walk -/

section Steps

variable {digest : String → String} {source : String} {s s₁ s₂ : State} {t : Token}
variable {ts : List Token} {own body more : List Instr} {os os' : List (String × String)}

theorem walkApartInside_eq (nodes? : Option (List Token)) :
    walkApartInside digest source nodes? = walkApart digest source (nodes?.getD []) := by
  cases nodes? with
  | none => rw [walkApartInside, Option.getD_none, walkApart]
  | some ts => rw [walkApartInside, Option.getD_some]

theorem walkApartOverridesInside_eq (nodes? : Option (List Token)) :
    walkApartOverridesInside digest source nodes? =
      walkApartOverrides digest source (nodes?.getD []) := by
  cases nodes? with
  | none => rw [walkApartOverridesInside, Option.getD_none, walkApartOverrides]
  | some ts => rw [walkApartOverridesInside, Option.getD_some]

/-- A walk whose first part succeeds. -/
theorem run_bind_of_ok {α β : Type} {first : Walk α} {next : α → Walk β} {a : α}
    (h : first.run s = .ok (a, s₁)) : (first >>= next).run s = (next a).run s₁ := by
  rw [StateT.run_bind, h]
  rfl

theorem run_walkApart_nil : (walkApart digest source []).run s = .ok ([], s) := by
  rw [walkApart]
  rfl

theorem run_walkApart_cons (hown : (walkApartNode digest source t).run s = .ok (own, s₁))
    (hmore : (walkApart digest source ts).run s₁ = .ok (more, s₂)) :
    (walkApart digest source (t :: ts)).run s = .ok (own ++ more, s₂) := by
  rw [walkApart, run_bind_of_ok hown, run_bind_of_ok hmore]
  rfl

/-- The number of a section. -/
def nextKey (s : State) : String := toString s.sections.length

/-- The state with a section filed under its number. -/
def State.fileApart (s : State) (source : String) (t : Token) (body : List Instr) : State :=
  { s with sections := Entries.insert s.sections (nextKey s) (sectionBody source t body) }

theorem run_walkApartNode_leaf (h : leafCode? s.pragmas s.startsLine t = some own) :
    (walkApartNode digest source t).run s =
      .ok (own, { s with startsLine := startsAfterLeaf s.startsLine t }) := by
  obtain ⟨kind, _, _, _, _, _, _, _, _, _, nodes?⟩ := t
  cases kind <;> cases h <;> rfl

theorem run_walkApartNode_pragma (h : t.kind = .pragma) :
    (walkApartNode digest source t).run s =
      .ok ([], { s with pragmas := s.pragmas.enable t.name }) := by
  obtain ⟨kind, _, _, _, _, _, _, _, _, _, nodes?⟩ := t
  cases h
  rfl

theorem run_walkApartNode_section (h : t.kind = .sectionTag)
    (hbody : (walkApart digest source t.nodes).run s = .ok (body, s₁)) :
    (walkApartNode digest source t).run s =
      .ok ([.enter (lookupOf s₁.pragmas t.name) (filtersOf s₁.pragmas t.filters) (nextKey s₁)],
        s₁.fileApart source t body) := by
  obtain ⟨kind, _, _, _, _, _, _, _, _, _, nodes?⟩ := t
  cases h
  rw [walkApartNode, walkApartInside_eq]
  exact run_bind_of_ok hbody

theorem run_walkApartNode_inverted (h : t.kind = .invertedTag)
    (hbody : (walkApart digest source t.nodes).run s = .ok (body, s₁)) :
    (walkApartNode digest source t).run s =
      .ok ([.inverted (lookupOf s.pragmas t.name) (filtersOf s.pragmas t.filters) body], s₁) := by
  obtain ⟨kind, _, _, _, _, _, _, _, _, _, nodes?⟩ := t
  cases h
  have hget : (get : Walk State).run s = .ok (s, s) := rfl
  rw [walkApartNode, walkApartInside_eq, run_bind_of_ok hget]
  exact run_bind_of_ok hbody

theorem run_walkApartNode_parent (h : t.kind = .parentTag)
    (hos : (walkApartOverrides digest source t.nodes).run s = .ok (os, s₁)) :
    (walkApartNode digest source t).run s =
      .ok ([.extend (templateNameOf s₁.pragmas t) os], s₁) := by
  obtain ⟨kind, _, _, _, _, _, _, _, _, _, nodes?⟩ := t
  cases h
  rw [walkApartNode, walkApartOverridesInside_eq]
  exact run_bind_of_ok hos

theorem run_walkApartNode_block (h : t.kind = .blockVar)
    (hbody : (walkApart digest source t.nodes).run s = .ok (body, s₁)) :
    (walkApartNode digest source t).run s = .ok ([.block t.name body], s₁) := by
  obtain ⟨kind, _, _, _, _, _, _, _, _, _, nodes?⟩ := t
  cases h
  rw [walkApartNode, walkApartInside_eq]
  exact run_bind_of_ok hbody

theorem run_walkApartOverrides_nil :
    (walkApartOverrides digest source []).run s = .ok ([], s) := by
  rw [walkApartOverrides]
  rfl

theorem run_walkApartOverride_skip (h : t.kind ≠ .blockArg) :
    (walkApartOverride digest source t).run s = .ok ([], s) := by
  obtain ⟨kind, _, _, _, _, _, _, _, _, _, nodes?⟩ := t
  rw [walkApartOverride, if_neg h]
  rfl

theorem run_walkApartOverride (h : t.kind = .blockArg)
    (hbody : (walkApart digest source t.nodes).run s = .ok (body, s₁)) :
    (walkApartOverride digest source t).run s =
      .ok ([(t.name, digest (Instr.bodyText body))],
        { s₁ with blocks := withBlock digest s₁.blocks body }) := by
  obtain ⟨kind, _, _, _, _, _, _, _, _, _, nodes?⟩ := t
  rw [walkApartOverride, if_pos h, walkApartInside_eq]
  exact run_bind_of_ok hbody

theorem run_walkApartOverrides_cons
    (hown : (walkApartOverride digest source t).run s = .ok (os, s₁))
    (hmore : (walkApartOverrides digest source ts).run s₁ = .ok (os', s₂)) :
    (walkApartOverrides digest source (t :: ts)).run s = .ok (os ++ os', s₂) := by
  rw [walkApartOverrides, run_bind_of_ok hown]
  exact run_bind_of_ok hmore

end Steps

/-! ## Numbers -/

theorem toString_injective {m n : Nat} (h : toString m = toString n) : m = n := by
  have hdigits (k : Nat) : Nat.ofDigitChars 10 (toString k).toList 0 = k := by
    change Nat.ofDigitChars 10 (Nat.repr k).toList 0 = k
    rw [Nat.toList_repr, Nat.ofDigitChars_ten_toDigits]
  rw [← hdigits m, h, hdigits]

theorem length_insert_of_new {α : Type} {m : Entries α} {name : String} (value : α)
    (h : Entries.has m name = false) : (Entries.insert m name value).length = m.length + 1 := by
  induction m with
  | nil => rfl
  | cons entry m ih =>
    obtain ⟨key, held⟩ := entry
    rw [Entries.has, Entries.get?] at h
    split at h
    · cases h
    · next hne => rw [Entries.insert, if_neg hne, List.length_cons, ih h, List.length_cons]

/-- Sections are filed under the numbers below that of the next one. -/
def Numbered (sections : Entries SectionBody) : Prop :=
  ∀ key, Entries.has sections key = true → ∃ n < sections.length, key = toString n

/-- The next number is free. -/
theorem Numbered.nextKey_free {s : State} (h : Numbered s.sections) :
    Entries.has s.sections (nextKey s) = false := by
  rw [Bool.eq_false_iff]
  intro hknown
  obtain ⟨n, hlt, heq⟩ := h _ hknown
  rw [toString_injective heq] at hlt
  exact absurd hlt (Nat.lt_irrefl n)

/-! ## Where the walk is -/

section Standing

variable (digest : String → String) (pragmas : PragmaSet)

/-- The walk is where a line starts or where none does, and has numbered
the sections before. -/
structure StandsApart (s : State) (starts : Option Bool) : Prop where
  pragmas_eq : s.pragmas = pragmas
  starts : ∀ b ∈ starts, s.startsLine = b
  sections : Numbered s.sections
  blocks : BlocksKeyed digest s.blocks

variable {digest pragmas}
variable {source : String} {T : Tables} {s s' : State} {starts : Option Bool}

/-- **A section is filed under a number of its own.** -/
theorem StandsApart.fileApart (h : StandsApart digest pragmas s starts) (t : Token)
    (body : List Instr) (hs' : s' = s.fileApart source t body) :
    StandsApart digest pragmas s' starts ∧ s.tables.Within s'.tables ∧
      Entries.get? s'.sections (nextKey s) = some (sectionBody source t body) := by
  subst hs'
  have hfree := h.sections.nextKey_free
  refine ⟨⟨h.pragmas_eq, h.starts, fun key hknown => ?_, h.blocks⟩,
    ⟨fun _ _ hget => Entries.get?_insert_of_new _ hfree hget, fun _ _ hget => hget⟩,
    Entries.get?_insert_self _ _ _⟩
  have hlength : (s.fileApart source t body).sections.length = s.sections.length + 1 :=
    length_insert_of_new _ hfree
  rw [hlength]
  rcases Entries.has_insert hknown with rfl | hold
  · exact ⟨s.sections.length, Nat.lt_succ_self _, rfl⟩
  · obtain ⟨n, hlt, rfl⟩ := h.sections key hold
    exact ⟨n, Nat.lt_succ_of_lt hlt, rfl⟩

theorem StandsApart.fileBlock (hdigest : Function.Injective digest)
    (h : StandsApart digest pragmas s starts) (body : List Instr)
    (hs' : s' = { s with blocks := withBlock digest s.blocks body }) :
    StandsApart digest pragmas s' starts ∧ s.tables.Within s'.tables ∧
      Entries.get? s'.blocks (digest (Instr.bodyText body)) = some body := by
  subst hs'
  exact ⟨⟨h.pragmas_eq, h.starts, h.sections, h.blocks.withBlock⟩,
    ⟨fun _ _ hget => hget, fun _ _ hget => get?_withBlock_of_get? hget⟩,
    h.blocks.get?_withBlock hdigest.injOn⟩

/-! ## The walk gives code -/

/-- Whether a node by itself is compiled does not depend on the line. -/
theorem exists_leafCode {t : Token} {flag : Bool} {own : List Instr}
    (h : leafCode? pragmas flag t = some own) (flag' : Bool) :
    ∃ own', leafCode? pragmas flag' t = some own' := by
  unfold leafCode? at h ⊢
  cases hkind : t.kind <;> rw [hkind] at h <;> cases h <;> exact ⟨_, rfl⟩

section Flags

variable {t : Token} {ts : List Token}

theorem map_startsAfter_nil (inParent : Bool) :
    starts.map (startsAfter · (visited inParent [])) = starts := by
  rw [visited_nil]
  cases starts <;> rfl

/-- A line after a node and others. -/
theorem map_startsAfter_append (nodes more : List Token) :
    (starts.map (startsAfter · nodes)).map (startsAfter · more) =
      starts.map (startsAfter · (nodes ++ more)) := by
  rw [Option.map_map]
  congr 1
  funext b
  exact (List.foldl_append ..).symm

theorem map_startsAfter_of_still (h : ∀ b, startsAfterLeaf b t = b) (nodes : List Token) :
    starts.map (startsAfter · (t :: nodes)) = starts.map (startsAfter · nodes) := by
  congr 1
  funext b
  rw [startsAfter, List.foldl_cons, h, startsAfter]

theorem map_startsAfter_leaf {flag : Bool} {own : List Instr}
    (h : leafCode? pragmas flag t = some own) :
    starts.map (startsAfter · (visited false (t :: ts))) =
      (starts.map (startsAfterLeaf · t)).map (startsAfter · (visited false ts)) := by
  rw [visited_cons, visitedNode_of_leaf h]
  exact (map_startsAfter_append [t] (visited false ts)).symm

theorem map_startsAfter_encloses (h : Encloses t) :
    starts.map (startsAfter · (visited false (t :: ts))) =
      (starts.map (startsAfter · (visited false t.nodes))).map
        (startsAfter · (visited false ts)) := by
  rw [map_startsAfter_append, visited_cons, visitedNode_of_encloses h, List.cons_append,
    map_startsAfter_of_still (startsAfterLeaf_of_encloses h)]

theorem map_startsAfter_parent (h : t.kind = .parentTag) :
    starts.map (startsAfter · (visited false (t :: ts))) =
      (starts.map (startsAfter · (visited true t.nodes))).map
        (startsAfter · (visited false ts)) := by
  rw [map_startsAfter_append, visited_cons, visitedNode_of_parent h, List.cons_append,
    map_startsAfter_of_still (startsAfterLeaf_of_parent h)]

theorem map_startsAfter_override (h : t.kind = .blockArg) :
    starts.map (startsAfter · (visited true (t :: ts))) =
      (starts.map (startsAfter · (visited false t.nodes))).map
        (startsAfter · (visited true ts)) := by
  rw [map_startsAfter_append, visited_cons_of_override h,
    visitedNode_of_encloses (.inr (.inr (.inr h))), List.cons_append,
    map_startsAfter_of_still (startsAfterLeaf_of_encloses (.inr (.inr (.inr h))))]

end Flags

mutual

/-- **Where there is code of some nodes, the walk succeeds** and gives code
of them, and keeps what was filed before. -/
theorem CodeOf.walkApart (hdigest : Function.Injective digest) :
    ∀ {starts : Option Bool} {ts : List Token} {code : List Instr} {s : State},
      CodeOf T pragmas source starts ts code → StandsApart digest pragmas s starts →
      ∃ code' s', (walkApart digest source ts).run s = .ok (code', s') ∧
        StandsApart digest pragmas s' (starts.map (startsAfter · (visited false ts))) ∧
        s.tables.Within s'.tables ∧ CodeOf s'.tables pragmas source starts ts code'
  | _, _, _, s, .nil, hs => by
    rw [map_startsAfter_nil]
    exact ⟨[], s, run_walkApart_nil, hs, .refl _, .nil⟩
  | starts, t :: _, _, s, .leaf hcode _ hrest, hs => by
    rw [map_startsAfter_leaf hcode]
    -- this walk may find the line otherwise, and then the flag of the code differs
    obtain ⟨own, hown⟩ := exists_leafCode hcode s.startsLine
    have hs₁ : StandsApart digest pragmas
        { s with startsLine := startsAfterLeaf s.startsLine t }
        (starts.map (startsAfterLeaf · t)) := by
      refine ⟨hs.pragmas_eq, fun b hb => ?_, hs.sections, hs.blocks⟩
      obtain ⟨c, hc, rfl⟩ := Option.map_eq_some_iff.1 hb
      rw [hs.starts c hc]
    obtain ⟨more, s', hrun, hs', hwithin, hmore⟩ := hrest.walkApart hdigest hs₁
    have hrun₁ : (walkApartNode digest source t).run s =
        .ok (own, { s with startsLine := startsAfterLeaf s.startsLine t }) := by
      refine run_walkApartNode_leaf ?_
      rw [hs.pragmas_eq]
      exact hown
    exact ⟨own ++ more, s', run_walkApart_cons hrun₁ hrun, hs', hwithin,
      .leaf hown hs.starts hmore⟩
  | _, _, _, s, .enter hkind _ hbody hrest, hs => by
    rw [map_startsAfter_encloses (.inl hkind)]
    obtain ⟨body, s₁, hrun₁, hs₁, hwithin₁, hbody⟩ := hbody.walkApart hdigest hs
    obtain ⟨hs₂, hwithin₂, hfiled⟩ := hs₁.fileApart _ body rfl
    obtain ⟨more, s', hrun, hs', hwithin', hmore⟩ := hrest.walkApart hdigest hs₂
    have hwithin := hwithin₂.trans hwithin'
    refine ⟨_, s', run_walkApart_cons (run_walkApartNode_section hkind hrun₁) hrun, hs',
      hwithin₁.trans hwithin, ?_⟩
    rw [hs₁.pragmas_eq]
    exact .enter hkind (hwithin'.sections _ _ hfiled) (hbody.mono hwithin) hmore
  | _, _, _, s, .inverted hkind hbody hrest, hs => by
    rw [map_startsAfter_encloses (.inr (.inl hkind))]
    obtain ⟨body, s₁, hrun₁, hs₁, hwithin₁, hbody⟩ := hbody.walkApart hdigest hs
    obtain ⟨more, s', hrun, hs', hwithin', hmore⟩ := hrest.walkApart hdigest hs₁
    refine ⟨_, s', run_walkApart_cons (run_walkApartNode_inverted hkind hrun₁) hrun, hs',
      hwithin₁.trans hwithin', ?_⟩
    rw [hs.pragmas_eq]
    exact .inverted hkind (hbody.mono hwithin') hmore
  | _, _, _, s, .extend hkind hos hrest, hs => by
    rw [map_startsAfter_parent hkind]
    obtain ⟨os, s₁, hrun₁, hs₁, hwithin₁, hos⟩ := hos.walkApart hdigest hs
    obtain ⟨more, s', hrun, hs', hwithin', hmore⟩ := hrest.walkApart hdigest hs₁
    refine ⟨_, s', run_walkApart_cons (run_walkApartNode_parent hkind hrun₁) hrun, hs',
      hwithin₁.trans hwithin', ?_⟩
    rw [hs₁.pragmas_eq]
    exact .extend hkind (hos.mono hwithin') hmore
  | _, _, _, s, .block hkind hbody hrest, hs => by
    rw [map_startsAfter_encloses (.inr (.inr (.inl hkind)))]
    obtain ⟨body, s₁, hrun₁, hs₁, hwithin₁, hbody⟩ := hbody.walkApart hdigest hs
    obtain ⟨more, s', hrun, hs', hwithin', hmore⟩ := hrest.walkApart hdigest hs₁
    exact ⟨_, s', run_walkApart_cons (run_walkApartNode_block hkind hrun₁) hrun, hs',
      hwithin₁.trans hwithin', .block hkind (hbody.mono hwithin') hmore⟩

theorem OverridesOf.walkApart (hdigest : Function.Injective digest) :
    ∀ {starts : Option Bool} {ts : List Token} {os : List (String × String)} {s : State},
      OverridesOf T pragmas source starts ts os → StandsApart digest pragmas s starts →
      ∃ os' s', (walkApartOverrides digest source ts).run s = .ok (os', s') ∧
        StandsApart digest pragmas s' (starts.map (startsAfter · (visited true ts))) ∧
        s.tables.Within s'.tables ∧ OverridesOf s'.tables pragmas source starts ts os'
  | _, _, _, s, .nil, hs => by
    rw [map_startsAfter_nil]
    exact ⟨[], s, run_walkApartOverrides_nil, hs, .refl _, .nil⟩
  | _, _, _, s, .skip hkind hrest, hs => by
    rw [visited_cons_of_scaffolding hkind]
    obtain ⟨os, s', hrun, hs', hwithin, hmore⟩ := hrest.walkApart hdigest hs
    exact ⟨os, s', run_walkApartOverrides_cons (run_walkApartOverride_skip hkind) hrun, hs',
      hwithin, .skip hkind hmore⟩
  | _, _, _, s, .override hkind _ hbody hrest, hs => by
    rw [map_startsAfter_override hkind]
    obtain ⟨body, s₁, hrun₁, hs₁, hwithin₁, hbody⟩ := hbody.walkApart hdigest hs
    obtain ⟨hs₂, hwithin₂, hfiled⟩ := hs₁.fileBlock hdigest body rfl
    obtain ⟨os, s', hrun, hs', hwithin', hmore⟩ := hrest.walkApart hdigest hs₂
    have hwithin := hwithin₂.trans hwithin'
    exact ⟨_, s', run_walkApartOverrides_cons (run_walkApartOverride hkind hrun₁) hrun, hs',
      hwithin₁.trans hwithin,
      .override hkind (hwithin'.blocks _ _ hfiled) (hbody.mono hwithin) hmore⟩

end

end Standing

end Compile

end Mustache
