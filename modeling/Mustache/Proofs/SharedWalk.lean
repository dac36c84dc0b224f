import Mathlib.Data.Set.Function
import Mustache.Proofs.CodeOf
import Mustache.Proofs.Pragmas
import Mustache.Proofs.Stored
/-!
# Mustache — the walk that shares sections

The compiler comes to the nodes of a template one after the other. What it
has filed by then comes from nodes it has passed: `Reached` says so, and
that the code filed for a section tag is code of the nodes inside that tag.

If sections of one text are alike, the code is code of the nodes of every
other tag of that text, too. So the walk leaves code of all the nodes it
has passed, whether it has walked them or not (`Walked.codeOf`).
-/

namespace Mustache

namespace Compile

/-! ## Keys tell sections apart -/

/-- A section text is one line, for the delimiters, and the text of the
section below it. -/
theorem sectionText_injective {d d' : Option Delimiters} (hd : AcceptedIfAny d)
    (hd' : AcceptedIfAny d') {source source' : String}
    (h : sectionText d source = sectionText d' source') : d = d' ∧ source = source' := by
  have hline {d : Option Delimiters} (hd : AcceptedIfAny d) :
      '\n' ∉ (d.elim "" Delimiters.tag).toList := by
    cases d with
    | none => exact nofun
    | some d => exact (hd d rfl).newline_not_mem_tag
  have hlists := congrArg String.toList h
  simp only [sectionText, String.toList_append, List.append_assoc] at hlists
  obtain ⟨htag, hsource⟩ := cut_unique (hline hd) (hline hd') hlists
  refine ⟨?_, String.toList_inj.1 hsource⟩
  have hne (d : Delimiters) : "" ≠ d.tag := by
    intro heq
    have hlist := congrArg String.toList heq
    simp [Delimiters.tag, String.toList_append] at hlist
  have htag := String.toList_inj.1 htag
  cases d with
  | none =>
    cases d' with
    | none => rfl
    | some d' => exact absurd htag (hne d')
  | some d =>
    cases d' with
    | none => exact absurd htag.symm (hne d)
    | some d' => rw [Delimiters.tag_injective (hd d rfl) (hd' d' rfl) htag]

theorem SameSection.body_eq {source : String} {t u : Token} (h : SameSection source t u)
    (body : List Instr) : sectionBody source t body = sectionBody source u body := by
  rw [sectionBody, sectionBody, h.text, h.delimiters]

/-! ## What is visited -/

section Visited

open Token (Everywhere EverywhereIn EverywhereInside)

variable {P : Token → Prop}

mutual

/-- What holds of all nodes holds of those that the compiler comes to. -/
theorem forall_visited : ∀ (inParent : Bool) (ts : List Token), EverywhereIn P ts →
    ∀ u ∈ visited inParent ts, P u
  | inParent, [], _ => by simp
  | inParent, t :: ts, h => by
    intro u hu
    rw [visited] at hu
    rcases List.mem_append.1 hu with hu | hu
    · split at hu
      · cases hu
      · exact forall_visitedNode t h.1 u hu
    · exact forall_visited inParent ts h.2 u hu

theorem forall_visitedNode : ∀ t : Token, Everywhere P t → ∀ u ∈ visitedNode t, P u
  | ⟨kind, _, _, _, _, _, _, _, _, _, nodes?⟩, h => by
    intro u hu
    cases kind
    case sectionTag | invertedTag | blockVar | blockArg =>
      rw [visitedNode] at hu
      rcases List.mem_cons.1 hu with rfl | hu
      · exact h.self
      · exact forall_visitedInside false nodes? h.2 u hu
    case parentTag =>
      rw [visitedNode] at hu
      rcases List.mem_cons.1 hu with rfl | hu
      · exact h.self
      · exact forall_visitedInside true nodes? h.2 u hu
    all_goals
      rw [List.mem_singleton.1 hu]
      exact h.self

theorem forall_visitedInside : ∀ (inParent : Bool) (nodes? : Option (List Token)),
    EverywhereInside P nodes? → ∀ u ∈ visitedInside inParent nodes?, P u
  | inParent, none, _ => by simp [visitedInside]
  | inParent, some ts, h => by
    rw [visitedInside]
    exact forall_visited inParent ts h

end

/-- A section has no section inside that is the same up to places: it would
have as many nodes as the one around it. -/
theorem placelessAll_ne_of_inside {source : String} {t u : Token}
    (hu : u ∈ visited false t.nodes) (hkind : u.kind = .sectionTag) :
    placelessAll source t.nodes ≠ placelessAll source u.nodes := by
  intro heq
  have hvisited := congrArg (fun ts => (visited false ts).length) heq
  simp only [visited_placeless, List.length_map] at hvisited
  have hle := (visitedNode_isInfix false t.nodes hu).length_le
  rw [visitedNode_of_encloses (.inl hkind), List.length_cons] at hle
  omega

end Visited

/-! ## What the walk files -/

section Filing

variable {digest : String → String} {source : String}

/-- A key is taken by a section among some nodes. -/
def KeyOf (digest : String → String) (source : String) (nodes : List Token) (key : String) : Prop :=
  ∃ u ∈ nodes, u.kind = .sectionTag ∧ key = sectionKey digest source u

theorem KeyOf.mono {nodes more : List Token} {key : String} (h : KeyOf digest source nodes key)
    (hsub : nodes ⊆ more) : KeyOf digest source more key := by
  obtain ⟨u, hu, hkind, hkey⟩ := h
  exact ⟨u, hsub hu, hkind, hkey⟩

theorem nodes_subset_visited {t : Token} {ts : List Token} (h : Encloses t) :
    visited false t.nodes ⊆ visited false (t :: ts) := by
  rw [visited_cons, visitedNode_of_encloses h]
  intro u hu
  exact List.mem_append_left _ (List.mem_cons_of_mem t hu)

theorem rest_subset_visited {t : Token} {ts : List Token} :
    visited false ts ⊆ visited false (t :: ts) := by
  rw [visited_cons]
  exact List.subset_append_right _ _

theorem keyOf_self {t : Token} {ts : List Token} (h : t.kind = .sectionTag) :
    KeyOf digest source (visited false (t :: ts)) (sectionKey digest source t) := by
  refine ⟨t, ?_, h, rfl⟩
  rw [visited_cons, visitedNode_of_encloses (.inl h)]
  exact List.mem_append_left _ List.mem_cons_self

mutual

/-- **A key that is taken after a walk** was taken before it, or belongs to
a section that the walk came to. -/
theorem Walked.has_sections : ∀ {s s' : State} {ts : List Token} {code : List Instr},
    Walked digest source s ts code s' → ∀ key, Entries.has s'.sections key = true →
      Entries.has s.sections key = true ∨ KeyOf digest source (visited false ts) key
  | _, _, _, _, .nil, _, h => .inl h
  | _, _, _, _, .pragma _ hrest, key, h =>
    (hrest.has_sections key h).imp_right (·.mono rest_subset_visited)
  | _, _, _, _, .leaf _ hrest, key, h =>
    (hrest.has_sections key h).imp_right (·.mono rest_subset_visited)
  | _, _, _, _, .newSection hkind _ hbody hrest, key, h => by
    rcases hrest.has_sections key h with h | h
    · rcases Entries.has_insert h with rfl | h
      · exact .inr (keyOf_self hkind)
      · exact (hbody.has_sections key h).imp_right (·.mono (nodes_subset_visited (.inl hkind)))
    · exact .inr (h.mono rest_subset_visited)
  | _, _, _, _, .knownSection _ _ hrest, key, h =>
    (hrest.has_sections key h).imp_right (·.mono rest_subset_visited)
  | _, _, _, _, .inverted hkind hbody hrest, key, h => by
    rcases hrest.has_sections key h with h | h
    · exact (hbody.has_sections key h).imp_right
        (·.mono (nodes_subset_visited (.inr (.inl hkind))))
    · exact .inr (h.mono rest_subset_visited)
  | _, _, t :: ts, _, .extend hkind hos hrest, key, h => by
    rcases hrest.has_sections key h with h | h
    · refine (hos.has_sections key h).imp_right (·.mono ?_)
      rw [visited_cons, visitedNode_of_parent hkind]
      exact fun u hu => List.mem_append_left _ (List.mem_cons_of_mem t hu)
    · exact .inr (h.mono rest_subset_visited)
  | _, _, _, _, .block hkind hbody hrest, key, h => by
    rcases hrest.has_sections key h with h | h
    · exact (hbody.has_sections key h).imp_right
        (·.mono (nodes_subset_visited (.inr (.inr (.inl hkind)))))
    · exact .inr (h.mono rest_subset_visited)

theorem WalkedOverrides.has_sections :
    ∀ {s s' : State} {ts : List Token} {os : List (String × String)},
      WalkedOverrides digest source s ts os s' → ∀ key, Entries.has s'.sections key = true →
        Entries.has s.sections key = true ∨ KeyOf digest source (visited true ts) key
  | _, _, _, _, .nil, _, h => .inl h
  | _, _, _, _, .skip hkind hrest, key, h => by
    rw [visited_cons_of_scaffolding hkind]
    exact hrest.has_sections key h
  | _, _, t :: ts, _, .override hkind hbody hrest, key, h => by
    rw [visited_cons_of_override hkind, visitedNode_of_encloses (.inr (.inr (.inr hkind)))]
    rcases hrest.has_sections key h with h | h
    · refine (hbody.has_sections key h).imp_right (·.mono ?_)
      exact fun u hu => List.mem_append_left _ (List.mem_cons_of_mem t hu)
    · exact .inr (h.mono (List.subset_append_right _ _))

end

end Filing

/-! ## Overrides are filed under their own code -/

/-- Every override is filed under the digest of its code. -/
def BlocksKeyed (digest : String → String) (blocks : Entries (List Instr)) : Prop :=
  ∀ key body, Entries.get? blocks key = some body → key = digest (Instr.bodyText body)

/-- The texts of the code of overrides. -/
def blockTexts (blocks : Entries (List Instr)) : Set String :=
  {text | ∃ key body, Entries.get? blocks key = some body ∧ text = Instr.bodyText body}

/-- The overrides with one more. -/
def withBlock (digest : String → String) (blocks : Entries (List Instr)) (body : List Instr) :
    Entries (List Instr) :=
  Entries.insertNew blocks (digest (Instr.bodyText body)) body

section Blocks

variable {digest : String → String} {blocks : Entries (List Instr)} {body : List Instr}

theorem get?_withBlock_of_get? {key : String} {found : List Instr}
    (h : Entries.get? blocks key = some found) :
    Entries.get? (withBlock digest blocks body) key = some found := by
  unfold withBlock Entries.insertNew
  split
  · exact h
  · next hnew => exact Entries.get?_insert_of_new body (Bool.eq_false_iff.2 hnew) h

/-- **An override is found under its key**, whether it was filed before or
not, if its text does not collide with those on file: other code has another
key. -/
theorem BlocksKeyed.get?_withBlock (h : BlocksKeyed digest blocks)
    (hfree : Set.InjOn digest (insert (Instr.bodyText body) (blockTexts blocks))) :
    Entries.get? (withBlock digest blocks body) (digest (Instr.bodyText body)) = some body := by
  unfold withBlock Entries.insertNew
  split
  · next hknown =>
    obtain ⟨found, hfound⟩ := Option.isSome_iff_exists.1 hknown
    have htext : Instr.bodyText body = Instr.bodyText found :=
      hfree (Set.mem_insert _ _) (Set.mem_insert_of_mem _ ⟨_, found, hfound, rfl⟩)
        (h _ found hfound)
    rw [hfound, Instr.bodyText_injective htext]
  · exact Entries.get?_insert_self _ _ _

/-- One more override adds no text but its own. -/
theorem blockTexts_withBlock :
    blockTexts (withBlock digest blocks body) ⊆
      insert (Instr.bodyText body) (blockTexts blocks) := by
  rintro _ ⟨key, found, hfound, rfl⟩
  unfold withBlock Entries.insertNew at hfound
  split at hfound
  · exact .inr ⟨key, found, hfound, rfl⟩
  · rcases Entries.get?_insert hfound with ⟨-, rfl⟩ | ⟨-, hold⟩
    · exact .inl rfl
    · exact .inr ⟨key, found, hold, rfl⟩

theorem BlocksKeyed.withBlock (h : BlocksKeyed digest blocks) :
    BlocksKeyed digest (withBlock digest blocks body) := by
  unfold Compile.withBlock Entries.insertNew
  split
  · exact h
  · intro key found hfound
    rcases Entries.get?_insert hfound with ⟨rfl, rfl⟩ | ⟨-, hold⟩
    · rfl
    · exact h key found hold

end Blocks

/-! ## Where the walk is -/

/-- Whether a line starts after some nodes, if lines count. -/
def flagAfter (lines : Bool) (before : List Token) : Option Bool :=
  if lines then some (startsAfter true before) else none

section Flags

variable {lines : Bool} {t : Token} {before more : List Token}

theorem flagAfter_append :
    flagAfter lines (before ++ more) = (flagAfter lines before).map (startsAfter · more) := by
  cases lines
  · rfl
  · simp [flagAfter, startsAfter]

theorem flagAfter_snoc :
    flagAfter lines (before ++ [t]) = (flagAfter lines before).map (startsAfterLeaf · t) :=
  flagAfter_append

/-- A tag by itself leaves the start of a line as it is. -/
theorem flagAfter_snoc_of_still (h : ∀ starts, startsAfterLeaf starts t = starts) :
    flagAfter lines (before ++ [t]) = flagAfter lines before := by
  rw [flagAfter_snoc]
  simp [h]

/-- After the nodes inside a tag. -/
theorem flagAfter_inside (h : ∀ starts, startsAfterLeaf starts t = starts) :
    flagAfter lines (before ++ [t] ++ more) =
      (flagAfter lines before).map (startsAfter · more) := by
  rw [flagAfter_append, flagAfter_snoc_of_still h]

end Flags

section Reaching

variable (digest : String → String) (pragmas : PragmaSet) (source : String) (lines : Bool)

/-- A section is filed for one of the nodes before. -/
def FiledFor (T : Tables) (before : List Token) (key : String) (found : SectionBody) : Prop :=
  ∃ earlier t later body, before = earlier ++ t :: later ∧ t.kind = .sectionTag ∧
    key = sectionKey digest source t ∧ found = sectionBody source t body ∧
    CodeOf T pragmas source (flagAfter lines earlier) t.nodes body

/-- The texts of the code that overrides among some nodes may have, wherever a
walk comes from. -/
def overrideTexts (nodes : List Token) : Set String :=
  {text | ∃ t ∈ nodes, t.kind = .blockArg ∧
    ∃ s s' body, Walked digest source s t.nodes body s' ∧ text = Instr.bodyText body}

/-- **The walk has passed some nodes**: it knows whether a line starts after
them, and has filed nothing but sections and overrides among them. -/
structure Reached (s : State) (before : List Token) : Prop where
  pragmas_eq : s.pragmas = pragmas
  starts : ∀ b ∈ flagAfter lines before, s.startsLine = b
  sections : ∀ key found, Entries.get? s.sections key = some found →
    FiledFor digest pragmas source lines s.tables before key found
  blocks : BlocksKeyed digest s.blocks
  overrides : blockTexts s.blocks ⊆ overrideTexts digest source before

variable {digest pragmas source lines}
variable {s s' : State} {t : Token} {before more : List Token} {T T' : Tables}

theorem FiledFor.mono {key : String} {found : SectionBody}
    (h : FiledFor digest pragmas source lines T before key found) (hT : T.Within T') :
    FiledFor digest pragmas source lines T' before key found := by
  obtain ⟨earlier, t, later, body, hplace, hkind, hkey, hfound, hcode⟩ := h
  exact ⟨earlier, t, later, body, hplace, hkind, hkey, hfound, hcode.mono hT⟩

theorem FiledFor.append {key : String} {found : SectionBody}
    (h : FiledFor digest pragmas source lines T before key found) :
    FiledFor digest pragmas source lines T (before ++ more) key found := by
  obtain ⟨earlier, t, later, body, rfl, hkind, hkey, hfound, hcode⟩ := h
  exact ⟨earlier, t, later ++ more, body, by simp, hkind, hkey, hfound, hcode⟩

theorem overrideTexts_mono (hsub : before ⊆ more) :
    overrideTexts digest source before ⊆ overrideTexts digest source more := by
  rintro text ⟨t, ht, hoverride⟩
  exact ⟨t, hsub ht, hoverride⟩

/-- The walk goes on without filing anything. -/
theorem Reached.pass (h : Reached digest pragmas source lines s before)
    (hpragmas : s'.pragmas = s.pragmas) (htables : s'.tables = s.tables)
    (hstarts : ∀ b ∈ flagAfter lines (before ++ more), s'.startsLine = b) :
    Reached digest pragmas source lines s' (before ++ more) := by
  have hsections : s'.sections = s.sections := congrArg Tables.sections htables
  have hblocks : s'.blocks = s.blocks := congrArg Tables.blocks htables
  refine ⟨hpragmas.trans h.pragmas_eq, hstarts, fun key found hfound => ?_, ?_, ?_⟩
  · rw [htables]
    rw [hsections] at hfound
    exact (h.sections key found hfound).append
  · rw [hblocks]
    exact h.blocks
  · rw [hblocks]
    exact h.overrides.trans (overrideTexts_mono (List.subset_append_left before more))

/-- The walk enters a tag. -/
theorem Reached.enter (h : Reached digest pragmas source lines s before)
    (hstill : ∀ starts, startsAfterLeaf starts t = starts) :
    Reached digest pragmas source lines s (before ++ [t]) := by
  refine h.pass rfl rfl fun b hb => ?_
  rw [flagAfter_snoc_of_still hstill] at hb
  exact h.starts b hb

/-! ## Filing -/

/-- A section is filed after the nodes inside it are walked. -/
theorem Reached.fileSection {body : List Instr}
    (h : Reached digest pragmas source lines s (before ++ [t] ++ more))
    (hkind : t.kind = .sectionTag)
    (hnew : Entries.has s.sections (sectionKey digest source t) = false)
    (hcode : CodeOf s.tables pragmas source (flagAfter lines before) t.nodes body)
    (hs' : s' = { s with
      sections := Entries.insert s.sections (sectionKey digest source t)
        (sectionBody source t body) }) :
    Reached digest pragmas source lines s' (before ++ [t] ++ more) ∧
      s.tables.Within s'.tables ∧
      Entries.get? s'.sections (sectionKey digest source t) = some (sectionBody source t body) := by
  subst hs'
  have hwithin : s.tables.Within ⟨Entries.insert s.sections (sectionKey digest source t)
      (sectionBody source t body), s.blocks⟩ :=
    ⟨fun _ _ hget => Entries.get?_insert_of_new _ hnew hget, fun _ _ hget => hget⟩
  refine ⟨⟨h.pragmas_eq, h.starts, fun key found hfound => ?_, h.blocks, h.overrides⟩, hwithin,
    Entries.get?_insert_self _ _ _⟩
  rcases Entries.get?_insert hfound with ⟨rfl, rfl⟩ | ⟨-, hold⟩
  · exact ⟨before, t, more, body, by simp, hkind, rfl, rfl, hcode.mono hwithin⟩
  · exact (h.sections key found hold).mono hwithin

/-- An override is filed. -/
theorem Reached.fileBlock {body : List Instr} {s₀ : State}
    (hfree : Set.InjOn digest (overrideTexts digest source before))
    (h : Reached digest pragmas source lines s before) (ht : t ∈ before)
    (hkind : t.kind = .blockArg) (hbody : Walked digest source s₀ t.nodes body s)
    (hs' : s' = { s with blocks := withBlock digest s.blocks body }) :
    Reached digest pragmas source lines s' before ∧ s.tables.Within s'.tables ∧
      Entries.get? s'.blocks (digest (Instr.bodyText body)) = some body := by
  subst hs'
  have hown : insert (Instr.bodyText body) (blockTexts s.blocks) ⊆
      overrideTexts digest source before :=
    Set.insert_subset ⟨t, ht, hkind, s₀, s, body, hbody, rfl⟩ h.overrides
  have hwithin : s.tables.Within ⟨s.sections, withBlock digest s.blocks body⟩ :=
    ⟨fun _ _ hget => hget, fun _ _ hget => get?_withBlock_of_get? hget⟩
  have hsections (key : String) (found : SectionBody)
      (hfound : Entries.get? s.sections key = some found) :=
    (h.sections key found hfound).mono hwithin
  exact ⟨⟨h.pragmas_eq, h.starts, hsections, h.blocks.withBlock,
      blockTexts_withBlock.trans hown⟩,
    hwithin, h.blocks.get?_withBlock (hfree.mono hown)⟩

/-! ## Repeated sections -/

/-- Keys tell the sections of a template apart. -/
def KeysTell (digest : String → String) (source : String) (nodes : List Token) : Prop :=
  ∀ t ∈ visited false nodes, ∀ u ∈ visited false nodes, t.kind = .sectionTag →
    u.kind = .sectionTag → sectionKey digest source t = sectionKey digest source u →
    SameSection source t u

/-- Sharing does no harm to a template: keys stand for texts and code, and
sections of one text are alike. If lines do not count, it is left open how
they stand on them. -/
structure SharesSafely (digest : String → String) (source : String) (lines : Bool)
    (nodes : List Token) : Prop where
  overrides : Set.InjOn digest (overrideTexts digest source (visited false nodes))
  keys : KeysTell digest source nodes
  trimmed : TrimmedAlike source nodes
  lined : lines = true → LinedAlike source nodes

variable {nodes : List Token}

/-- **What is filed for a repeated section is right for it**: code of its
own nodes, as the line stands where the walk comes to it. And the nodes
inside leave the line so. -/
theorem Reached.known_section (hsafe : SharesSafely digest source lines nodes)
    (hs : Reached digest pragmas source lines s before)
    (hwhole : before ++ [t] <+: visited false nodes) (hkind : t.kind = .sectionTag)
    (hknown : Entries.has s.sections (sectionKey digest source t) = true) :
    (∃ body, Entries.get? s.sections (sectionKey digest source t) =
        some (sectionBody source t body) ∧
      CodeOf s.tables pragmas source (flagAfter lines before) t.nodes body) ∧
    flagAfter lines (before ++ visited false t.nodes) = flagAfter lines before := by
  obtain ⟨found, hfound⟩ := Option.isSome_iff_exists.1 hknown
  obtain ⟨earlier, u, between, body, rfl, hkind', hkey, rfl, hcode⟩ :=
    hs.sections _ found hfound
  obtain ⟨after, hwhole⟩ := hwhole
  have hplaces : visited false nodes = earlier ++ u :: between ++ t :: after := by
    rw [← hwhole]
    simp
  have hsame : SameSection source u t := by
    refine hsafe.keys u ?_ t ?_ hkind' hkind hkey.symm
    · rw [hplaces]
      simp
    · rw [hplaces]
      simp
  -- Where lines count, the second tag finds the line as the first one did.
  have hflag : flagAfter lines (earlier ++ u :: between) = flagAfter lines earlier ∧
      flagAfter lines (earlier ++ u :: between ++ visited false t.nodes) =
        flagAfter lines (earlier ++ u :: between) := by
    cases hlines : lines with
    | false => exact ⟨rfl, rfl⟩
    | true =>
      obtain ⟨hstarts, hinside⟩ := hsafe.lined hlines _ _ _ _ _ hplaces hsame
      refine ⟨congrArg some hstarts, ?_⟩
      rw [flagAfter_append]
      refine congrArg some ?_
      rw [hstarts]
      exact hinside
  refine ⟨⟨body, ?_, ?_⟩, hflag.2⟩
  · rw [hfound, hsame.body_eq]
  · rw [hflag.1]
    exact hcode.of_placeless (hsafe.trimmed _ _ _ _ _ hplaces hsame)

/-- **The key of a new section is still free** when the nodes inside are
walked: no section inside it is the same. -/
theorem Walked.key_still_free (hsafe : SharesSafely digest source lines nodes)
    {body : List Instr} (hbody : Walked digest source s t.nodes body s')
    (hwhole : before ++ [t] ++ visited false t.nodes <+: visited false nodes)
    (hkind : t.kind = .sectionTag)
    (hnew : Entries.has s.sections (sectionKey digest source t) = false) :
    Entries.has s'.sections (sectionKey digest source t) = false := by
  rw [Bool.eq_false_iff]
  intro hknown
  rcases hbody.has_sections _ hknown with hold | ⟨u, hu, hkind', hkey⟩
  · rw [hnew] at hold
    cases hold
  · obtain ⟨between, later, hinside⟩ := List.append_of_mem hu
    obtain ⟨after, hwhole⟩ := hwhole
    have hplaces : visited false nodes = before ++ t :: between ++ u :: (later ++ after) := by
      rw [← hwhole, hinside]
      simp
    have hsame : SameSection source t u := by
      refine hsafe.keys t ?_ u ?_ hkind hkind' hkey
      · rw [hplaces]
        simp
      · rw [hplaces]
        simp
    exact placelessAll_ne_of_inside hu hkind' (hsafe.trimmed _ _ _ _ _ hplaces hsame)

/-! ## The walk leaves code of what it has passed -/

section Order

variable {ts : List Token}

theorem append_visited_of_encloses (h : Encloses t) :
    before ++ visited false (t :: ts) =
      before ++ [t] ++ visited false t.nodes ++ visited false ts := by
  simp [visitedNode_of_encloses h]

theorem append_visited_of_parent (h : t.kind = .parentTag) :
    before ++ visited false (t :: ts) =
      before ++ [t] ++ visited true t.nodes ++ visited false ts := by
  simp [visitedNode_of_parent h]

theorem append_visited_of_leaf {flag : Bool} {own : List Instr}
    (h : leafCode? pragmas flag t = some own) :
    before ++ visited false (t :: ts) = before ++ [t] ++ visited false ts := by
  simp [visitedNode_of_leaf h]

theorem append_visited_of_override (h : t.kind = .blockArg) :
    before ++ visited true (t :: ts) =
      before ++ [t] ++ visited false t.nodes ++ visited true ts := by
  rw [visited_cons_of_override h, visitedNode_of_encloses (.inr (.inr (.inr h)))]
  simp

end Order

open Token in
mutual

/-- **The walk leaves code of the nodes it has passed**, and keeps what was
filed before. -/
theorem Walked.codeOf (hsafe : SharesSafely digest source lines nodes) :
    ∀ {s s' : State} {ts : List Token} {code : List Instr} {before : List Token},
      Walked digest source s ts code s' → EverywhereIn IsPlain ts →
      before ++ visited false ts <+: visited false nodes →
      Reached digest pragmas source lines s before →
        Reached digest pragmas source lines s' (before ++ visited false ts) ∧
          s.tables.Within s'.tables ∧
          CodeOf s'.tables pragmas source (flagAfter lines before) ts code
  | _, _, _, _, before, .nil, _, _, hs => by
    rw [visited_nil, List.append_nil]
    exact ⟨hs, .refl _, .nil⟩
  | _, _, _, _, _, .pragma hkind _, hplain, _, _ => absurd hkind hplain.1.self
  | s, _, t :: ts, _, before, .leaf hcode hrest, hplain, hwhole, hs => by
    rw [append_visited_of_leaf hcode] at hwhole ⊢
    have hs₁ : Reached digest pragmas source lines
        { s with startsLine := startsAfterLeaf s.startsLine t } (before ++ [t]) := by
      refine hs.pass rfl rfl fun b hb => ?_
      rw [flagAfter_snoc] at hb
      obtain ⟨c, hc, rfl⟩ := Option.map_eq_some_iff.1 hb
      rw [hs.starts c hc]
    obtain ⟨hs', hwithin, hmore⟩ := hrest.codeOf hsafe hplain.2 hwhole hs₁
    rw [flagAfter_snoc] at hmore
    rw [hs.pragmas_eq] at hcode
    exact ⟨hs', hwithin, .leaf hcode hs.starts hmore⟩
  | s, _, t :: ts, _, before, .newSection hkind hnew hbody hrest, hplain, hwhole, hs => by
    have hstill := startsAfterLeaf_of_encloses (.inl hkind)
    rw [append_visited_of_encloses (.inl hkind)] at hwhole ⊢
    have hinside := (List.prefix_append _ _).trans hwhole
    have hfree := hbody.key_still_free hsafe hinside hkind hnew
    obtain ⟨hs₁, hwithin₁, hbody⟩ := hbody.codeOf hsafe hplain.1.nodes hinside (hs.enter hstill)
    rw [flagAfter_snoc_of_still hstill] at hbody
    obtain ⟨hs₂, hwithin₂, hfiled⟩ := hs₁.fileSection hkind hfree hbody rfl
    obtain ⟨hs', hwithin', hmore⟩ := hrest.codeOf hsafe hplain.2 hwhole hs₂
    rw [flagAfter_inside hstill] at hmore
    rw [hs₁.pragmas_eq]
    have hwithin := hwithin₂.trans hwithin'
    exact ⟨hs', hwithin₁.trans hwithin,
      .enter hkind (hwithin'.sections _ _ hfiled) (hbody.mono hwithin) hmore⟩
  | s, _, t :: ts, _, before, .knownSection hkind hknown hrest, hplain, hwhole, hs => by
    have hstill := startsAfterLeaf_of_encloses (.inl hkind)
    rw [append_visited_of_encloses (.inl hkind)] at hwhole ⊢
    have htag : before ++ [t] <+: visited false nodes := by
      refine List.IsPrefix.trans ?_ hwhole
      rw [List.append_assoc]
      exact List.prefix_append _ _
    obtain ⟨⟨body, hfiled, hbody⟩, hflag⟩ := hs.known_section hsafe htag hkind hknown
    rw [flagAfter_append] at hflag
    -- The nodes inside are skipped, which the line does not notice.
    have hs₁ : Reached digest pragmas source lines s (before ++ [t] ++ visited false t.nodes) := by
      refine (hs.enter hstill).pass rfl rfl fun b hb => ?_
      rw [flagAfter_inside hstill, hflag] at hb
      exact hs.starts b hb
    obtain ⟨hs', hwithin, hmore⟩ := hrest.codeOf hsafe hplain.2 hwhole hs₁
    rw [flagAfter_inside hstill] at hmore
    rw [hs.pragmas_eq]
    exact ⟨hs', hwithin, .enter hkind (hwithin.sections _ _ hfiled) (hbody.mono hwithin) hmore⟩
  | s, _, t :: ts, _, before, .inverted hkind hbody hrest, hplain, hwhole, hs => by
    have hstill := startsAfterLeaf_of_encloses (.inr (.inl hkind))
    rw [append_visited_of_encloses (.inr (.inl hkind))] at hwhole ⊢
    have hinside := (List.prefix_append _ _).trans hwhole
    obtain ⟨hs₁, hwithin₁, hbody⟩ := hbody.codeOf hsafe hplain.1.nodes hinside (hs.enter hstill)
    obtain ⟨hs', hwithin', hmore⟩ := hrest.codeOf hsafe hplain.2 hwhole hs₁
    rw [flagAfter_snoc_of_still hstill] at hbody
    rw [flagAfter_inside hstill] at hmore
    rw [hs.pragmas_eq]
    exact ⟨hs', hwithin₁.trans hwithin', .inverted hkind (hbody.mono hwithin') hmore⟩
  | s, _, t :: ts, _, before, .extend hkind hos hrest, hplain, hwhole, hs => by
    have hstill := startsAfterLeaf_of_parent hkind
    rw [append_visited_of_parent hkind] at hwhole ⊢
    have hinside := (List.prefix_append _ _).trans hwhole
    obtain ⟨hs₁, hwithin₁, hos⟩ := hos.codeOf hsafe hplain.1.nodes hinside (hs.enter hstill)
    obtain ⟨hs', hwithin', hmore⟩ := hrest.codeOf hsafe hplain.2 hwhole hs₁
    rw [flagAfter_snoc_of_still hstill] at hos
    rw [flagAfter_inside hstill] at hmore
    rw [hs₁.pragmas_eq]
    exact ⟨hs', hwithin₁.trans hwithin', .extend hkind (hos.mono hwithin') hmore⟩
  | s, _, t :: ts, _, before, .block hkind hbody hrest, hplain, hwhole, hs => by
    have hstill := startsAfterLeaf_of_encloses (.inr (.inr (.inl hkind)))
    rw [append_visited_of_encloses (.inr (.inr (.inl hkind)))] at hwhole ⊢
    have hinside := (List.prefix_append _ _).trans hwhole
    obtain ⟨hs₁, hwithin₁, hbody⟩ := hbody.codeOf hsafe hplain.1.nodes hinside (hs.enter hstill)
    obtain ⟨hs', hwithin', hmore⟩ := hrest.codeOf hsafe hplain.2 hwhole hs₁
    rw [flagAfter_snoc_of_still hstill] at hbody
    rw [flagAfter_inside hstill] at hmore
    exact ⟨hs', hwithin₁.trans hwithin', .block hkind (hbody.mono hwithin') hmore⟩

theorem WalkedOverrides.codeOf (hsafe : SharesSafely digest source lines nodes) :
    ∀ {s s' : State} {ts : List Token} {os : List (String × String)} {before : List Token},
      WalkedOverrides digest source s ts os s' → EverywhereIn IsPlain ts →
      before ++ visited true ts <+: visited false nodes →
      Reached digest pragmas source lines s before →
        Reached digest pragmas source lines s' (before ++ visited true ts) ∧
          s.tables.Within s'.tables ∧
          OverridesOf s'.tables pragmas source (flagAfter lines before) ts os
  | _, _, _, _, before, .nil, _, _, hs => by
    rw [visited_nil, List.append_nil]
    exact ⟨hs, .refl _, .nil⟩
  | _, _, _, _, before, .skip hkind hrest, hplain, hwhole, hs => by
    rw [visited_cons_of_scaffolding hkind] at hwhole ⊢
    obtain ⟨hs', hwithin, hmore⟩ := hrest.codeOf hsafe hplain.2 hwhole hs
    exact ⟨hs', hwithin, .skip hkind hmore⟩
  | s, _, t :: ts, _, before, .override hkind hwalked hrest, hplain, hwhole, hs => by
    have hstill := startsAfterLeaf_of_encloses (.inr (.inr (.inr hkind)))
    rw [append_visited_of_override hkind] at hwhole ⊢
    have hinside := (List.prefix_append _ _).trans hwhole
    obtain ⟨hs₁, hwithin₁, hbody⟩ :=
      hwalked.codeOf hsafe hplain.1.nodes hinside (hs.enter hstill)
    rw [flagAfter_snoc_of_still hstill] at hbody
    have hfree := hsafe.overrides.mono (overrideTexts_mono hinside.subset)
    obtain ⟨hs₂, hwithin₂, hfiled⟩ := hs₁.fileBlock hfree (by simp) hkind hwalked rfl
    obtain ⟨hs', hwithin', hmore⟩ := hrest.codeOf hsafe hplain.2 hwhole hs₂
    rw [flagAfter_inside hstill] at hmore
    have hwithin := hwithin₂.trans hwithin'
    exact ⟨hs', hwithin₁.trans hwithin,
      .override hkind (hwithin'.blocks _ _ hfiled) (hbody.mono hwithin) hmore⟩

end

end Reaching

end Compile

end Mustache
