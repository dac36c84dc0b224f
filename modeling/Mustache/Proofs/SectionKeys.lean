import Mustache.Proofs.Closed
import Mustache.Proofs.DigestNumbers
import Mustache.Proofs.Filed
import Mustache.Proofs.SectionSpans
import Mustache.Proofs.SharedWalk
/-!
# Mustache — one section on file for each text

The compiler files a section under the digest of its delimiters and its text,
and does not walk what is inside a tag whose key is taken. It misses nothing
by that: sections of one text have the same sections inside
(`SectionAt.exists_same`), so where a key is taken, the keys of all that is
inside are taken too, and this stays so along the walk (`Walked.deep`).

So the keys on file are those of the sections of the tree, at any depth, and
each of these finds its own text and delimiters there, with the code of the
nodes inside some tag of that text (`Walked.stems`). This asks of the digest
only that it tells the texts of the sections of the template apart.
-/

namespace Mustache

open Token (Within)

/-! ## Sections at any depth -/

/-- A section tag stands in a tree, at any depth. -/
structure Tree.HasSection (tree : Tree) (t : Token) : Prop where
  within : Within t tree.nodes
  kind : t.kind = .sectionTag

/-- The texts under whose digests the sections of a tree are filed. -/
def Tree.sectionTexts (source : String) (tree : Tree) : Set String :=
  {text | ∃ t, tree.HasSection t ∧
    text = Compile.sectionText (Delimiters.unlessStandard t.delimiters?)
      (Compile.sectionSource source t)}

namespace Compile

/-- The compiler comes to nodes of the tree. -/
theorem within_of_visited {inParent : Bool} {nodes : List Token} {u : Token}
    (h : u ∈ visited inParent nodes) : Within u nodes :=
  forall_visited inParent nodes (.within nodes) u h

end Compile

namespace Tree

open Compile (visited visitedNode_of_encloses visitedNode_of_parent)

variable {blocks inParent : Bool} {first tag node u : Token} {ts nodes : List Token}

/-- The compiler comes to a tag, and goes into it. -/
theorem Opens.visited_cons (h : Opens blocks inParent first tag) (hnode : node.kind = tag.kind) :
    visited inParent (node :: nodes) =
      node :: (visited (tag.kind = .parentTag) node.nodes ++ visited inParent nodes) := by
  have hplace : (inParent && node.kind ≠ .blockArg) = false := by
    cases inParent
    · rfl
    · rw [hnode, h.override rfl]
      rfl
  rw [visited, hplace, if_neg Bool.false_ne_true, ← List.cons_append, ← hnode]
  congr 1
  by_cases hparent : node.kind = .parentTag
  · rw [visitedNode_of_parent hparent, hparent]
    rfl
  · have hencloses : Compile.Encloses node := by
      rcases h.isTag.kind with ⟨hsame, hmem⟩ | ⟨-, harg, -⟩
      · rw [← hsame, ← hnode] at hmem
        have hkinds : node.kind = .sectionTag ∨ node.kind = .invertedTag ∨
            node.kind = .blockVar := by simpa [hparent] using hmem
        exact hkinds.imp_right (Or.imp_right .inl)
      · exact .inr (.inr (.inr (hnode.trans harg)))
    rw [visitedNode_of_encloses hencloses, decide_eq_false hparent]

/-- **The compiler comes to every section**: inside a parent tag nothing
encloses one but an override. -/
theorem Grown.mem_visited (h : Grown blocks inParent ts nodes) (hu : Within u nodes)
    (hkind : u.kind = .sectionTag) : u ∈ visited inParent nodes := by
  induction h with
  | nil => exact absurd hu Within.not_nil
  | pass _ _ ih => exact ih hu
  | leaf hleaf hnodes _ _ ih =>
    rcases Within.cons_iff.1 hu with rfl | hu | hu
    · exact absurd hkind hleaf.not_section.2
    · rw [Token.nodes, hnodes] at hu
      exact absurd hu Within.not_nil
    · rw [visited]
      exact List.mem_append_right _ (ih hu)
  | tag hopens _ _ _ ihinside ih =>
    rw [hopens.visited_cons (by exact rfl), List.mem_cons, List.mem_append]
    exact (Within.cons_iff.1 hu).imp_right (Or.imp ihinside ih)

/-- The texts of the sections that the compiler comes to. -/
def visitedTexts (source : String) (tree : Tree) : List String :=
  ((visited false tree.nodes).filter fun t => t.kind = .sectionTag).map fun t =>
    Compile.sectionText (Delimiters.unlessStandard t.delimiters?) (Compile.sectionSource source t)

/-- These are the texts of all sections, and can be listed. -/
theorem mem_sectionTexts_iff {tree : Tree} {source text : String}
    (h : Grown blocks false ts tree.nodes) :
    text ∈ tree.sectionTexts source ↔ text ∈ tree.visitedTexts source := by
  simp only [visitedTexts, List.mem_map, List.mem_filter, decide_eq_true_eq]
  constructor
  · rintro ⟨t, ht, rfl⟩
    exact ⟨t, ⟨h.mem_visited ht.within ht.kind, ht.kind⟩, rfl⟩
  · rintro ⟨t, ⟨ht, hkind⟩, rfl⟩
    exact ⟨t, ⟨Compile.within_of_visited ht, hkind⟩, rfl⟩

/-- Whether digests collide on the texts of a template can be found out. -/
theorem injOn_sectionTexts {delimiters : Delimiters} {source : String} {pragmas : List Pragma}
    {tree : Tree} {digest : String → String} (hscan : Token.scan delimiters source = .ok ts)
    (htree : ofTokens pragmas ts = .ok tree)
    (h : ((tree.visitedTexts source).dedup.map digest).Nodup) :
    Set.InjOn digest (tree.sectionTexts source) := by
  have hlisted {text : String} (htext : text ∈ tree.sectionTexts source) :
      text ∈ (tree.visitedTexts source).dedup :=
    List.mem_dedup.2 ((mem_sectionTexts_iff (grown_of_scan hscan htree)).1 htext)
  exact fun a ha b hb heq => List.inj_on_of_nodup_map h (hlisted ha) (hlisted hb) heq

end Tree

/-! ## Keys tell sections apart -/

namespace Tree

open Compile (KeyOf sectionKey sectionSource visited)

/-- **Sections of a tree have one key only if they have one text**, where their
texts do not collide. -/
theorem keysTell {digest : String → String} {source : String} {tree : Tree}
    (haccepted : Token.EverywhereIn Token.IsAccepted tree.nodes)
    (hfree : Set.InjOn digest (tree.sectionTexts source)) :
    Compile.KeysTell digest source tree.nodes := by
  intro t ht u hu hkind hkind' hkey
  have hall := Compile.forall_visited false tree.nodes haccepted
  obtain ⟨hdelimiters, htext⟩ := Compile.sectionText_injective
    (AcceptedIfAny.unlessStandard (hall t ht)) (AcceptedIfAny.unlessStandard (hall u hu))
    (hfree ⟨t, ⟨Compile.within_of_visited ht, hkind⟩, rfl⟩
      ⟨u, ⟨Compile.within_of_visited hu, hkind'⟩, rfl⟩ hkey)
  exact ⟨hkind, hkind', hdelimiters, htext⟩

/-- **Keys tell the sections of a tree apart**: each has a part of the text to
itself, and the digests of their texts do not collide. -/
structure Keyed (digest : String → String) (source : String) (tree : Tree) : Prop where
  accepted : Token.EverywhereIn Token.IsAccepted tree.nodes
  places : ∀ t, tree.HasSection t → ∃ start segments inside,
    SectionAt source (tree.pragmas.has .blocks) t start segments inside
  visits : ∀ t, tree.HasSection t → t ∈ visited false tree.nodes
  free : Set.InjOn digest (tree.sectionTexts source)

variable {digest : String → String} {source : String} {tree : Tree} {t t' : Token}

/-- **Two section tags have the same key exactly if they have the same
delimiters and the same text.** -/
theorem Keyed.sectionKey_eq_iff (h : tree.Keyed digest source) (ht : tree.HasSection t)
    (ht' : tree.HasSection t') :
    sectionKey digest source t = sectionKey digest source t' ↔
      t.delimiters? = t'.delimiters? ∧ sectionSource source t = sectionSource source t' := by
  constructor
  · intro hkey
    have htext := h.free ⟨t, ht, rfl⟩ ⟨t', ht', rfl⟩ hkey
    have haccepted := ht.within.of_everywhereIn h.accepted
    have haccepted' := ht'.within.of_everywhereIn h.accepted
    obtain ⟨hdelimiters, hsource⟩ := Compile.sectionText_injective
      (AcceptedIfAny.unlessStandard haccepted) (AcceptedIfAny.unlessStandard haccepted') htext
    obtain ⟨_, _, _, hplace⟩ := h.places t ht
    obtain ⟨_, _, _, hplace'⟩ := h.places t' ht'
    rw [hplace.delimiters, hplace'.delimiters] at hdelimiters ⊢
    exact ⟨congrArg some (Delimiters.unlessStandard_some_injective hdelimiters), hsource⟩
  · rintro ⟨hdelimiters, hsource⟩
    rw [sectionKey, sectionKey, hdelimiters, hsource]

/-- A section of a section of a tree. -/
theorem HasSection.of_inside {u : Token} (ht : tree.HasSection t) (hu : Within u t.nodes)
    (hkind : u.kind = .sectionTag) : tree.HasSection u :=
  ⟨hu.trans ht.within, hkind⟩

/-- **Sections under one key have sections under the same keys inside.** -/
theorem Keyed.keyOf_inside (h : tree.Keyed digest source) (ht : tree.HasSection t)
    (ht' : tree.HasSection t') (hkey : sectionKey digest source t = sectionKey digest source t')
    {key : String} (hinside : KeyOf digest source (visited false t.nodes) key) :
    KeyOf digest source (visited false t'.nodes) key := by
  obtain ⟨u, hu, hkind, rfl⟩ := hinside
  obtain ⟨hdelimiters, hsource⟩ := (h.sectionKey_eq_iff ht ht').1 hkey
  obtain ⟨_, _, _, hplace⟩ := h.places t ht
  obtain ⟨_, _, _, hplace'⟩ := h.places t' ht'
  obtain ⟨u', hu', hkind', hsame, htext⟩ := hplace.exists_same hplace' hdelimiters hsource
    (Compile.within_of_visited hu) hkind
  refine ⟨u', hplace'.grown.mem_visited hu' hkind', hkind', ?_⟩
  rw [sectionKey, sectionKey, hsame, htext]

end Tree

/-! ## The walk misses no section -/

namespace Compile

variable {digest : String → String} {source : String} {tree : Tree}

/-- The keys of the sections among some nodes are taken. -/
def State.Files (digest : String → String) (source : String) (nodes : List Token) (s : State) :
    Prop :=
  ∀ key, KeyOf digest source nodes key → Entries.has s.sections key = true

/-- Where the key of a section is taken, the keys of all sections inside are
taken too. -/
def State.Deep (digest : String → String) (source : String) (tree : Tree) (s : State) : Prop :=
  ∀ t, tree.HasSection t → Entries.has s.sections (sectionKey digest source t) = true →
    s.Files digest source (visited false t.nodes)

section Files

variable {s s' : State} {t : Token} {nodes more : List Token}

theorem State.Files.nil : s.Files digest source [] := by
  rintro key ⟨u, hu, -⟩
  cases hu

theorem State.Files.mono (h : s.Files digest source nodes) (hgrows : s.Grows s') :
    s'.Files digest source nodes :=
  fun key hkey => hgrows.sections key (h key hkey)

theorem State.Files.append (h : s.Files digest source nodes)
    (hmore : s.Files digest source more) : s.Files digest source (nodes ++ more) := by
  rintro key ⟨u, hu, hkind, hkey⟩
  rcases List.mem_append.1 hu with hu | hu
  · exact h key ⟨u, hu, hkind, hkey⟩
  · exact hmore key ⟨u, hu, hkind, hkey⟩

theorem State.Files.cons (h : s.Files digest source nodes)
    (ht : Entries.has s.sections (sectionKey digest source t) = true) :
    s.Files digest source (t :: nodes) := by
  rintro key ⟨u, hu, hkind, rfl⟩
  rcases List.mem_cons.1 hu with rfl | hu
  · exact ht
  · exact h _ ⟨u, hu, hkind, rfl⟩

/-- A node that is no section has no key. -/
theorem State.Files.cons_other (h : s.Files digest source nodes) (ht : t.kind ≠ .sectionTag) :
    s.Files digest source (t :: nodes) := by
  rintro key ⟨u, hu, hkind, hkey⟩
  rcases List.mem_cons.1 hu with rfl | hu
  · exact absurd hkind ht
  · exact h key ⟨u, hu, hkind, hkey⟩

theorem kind_ne_of_leafCode? {pragmas : PragmaSet} {starts : Bool} {code : List Instr}
    (h : leafCode? pragmas starts t = some code) : t.kind ≠ .sectionTag := by
  intro hkind
  rw [leafCode?, hkind] at h
  cases h

/-- A section is filed when the keys of all sections inside are taken. -/
theorem State.Deep.insert_section (hkeyed : tree.Keyed digest source)
    (h : s.Deep digest source tree) (ht : tree.HasSection t)
    (hinside : s.Files digest source (visited false t.nodes)) (body : SectionBody) :
    { s with sections := Entries.insert s.sections (sectionKey digest source t) body : State }.Deep
      digest source tree := by
  intro u hu hknown
  have hgrows := State.Grows.insert_section s (sectionKey digest source t) body
  rcases Entries.has_insert hknown with hsame | hold
  · intro key hkey
    exact hinside.mono hgrows key (hkeyed.keyOf_inside hu ht hsame hkey)
  · exact (h u hu hold).mono hgrows

end Files

open Token in
mutual

/-- **A walk files all the sections among its nodes**, at any depth, whether
it walks what is inside or not. -/
theorem Walked.deep (hkeyed : tree.Keyed digest source) :
    ∀ {s s' : State} {ts : List Token} {code : List Instr}, Walked digest source s ts code s' →
      EverywhereIn (Within · tree.nodes) ts → s.Deep digest source tree →
        s'.Deep digest source tree ∧ s'.Files digest source (visited false ts)
  | _, _, _, _, .nil, _, hs => by
    rw [visited_nil]
    exact ⟨hs, .nil⟩
  | _, _, _, _, .pragma hkind hrest, hts, hs => by
    obtain ⟨hafter, hmore⟩ := hrest.deep hkeyed hts.2 hs
    rw [visited_cons, visitedNode_of_pragma hkind]
    exact ⟨hafter, hmore.cons_other (by rw [hkind]; decide)⟩
  | _, _, _, _, .leaf hleaf hrest, hts, hs => by
    obtain ⟨hafter, hmore⟩ := hrest.deep hkeyed hts.2 hs
    rw [visited_cons, visitedNode_of_leaf hleaf]
    exact ⟨hafter, hmore.cons_other (kind_ne_of_leafCode? hleaf)⟩
  | _, _, _, _, .newSection hkind _ hbody hrest, hts, hs => by
    obtain ⟨hinside, hfiled⟩ := hbody.deep hkeyed hts.1.nodes hs
    have ht : tree.HasSection _ := ⟨hts.1.self, hkind⟩
    obtain ⟨hafter, hmore⟩ := hrest.deep hkeyed hts.2 (hinside.insert_section hkeyed ht hfiled _)
    have hown := hrest.grows.sections _ (Entries.has_insert_self _ _ _)
    have hfiled := (hfiled.mono (.insert_section _ _ _)).mono hrest.grows
    rw [visited_cons, visitedNode_of_encloses (.inl hkind)]
    exact ⟨hafter, (hfiled.cons hown).append hmore⟩
  | _, _, _, _, .knownSection hkind hknown hrest, hts, hs => by
    -- what is inside is not walked here, and its keys are taken
    have hfiled := hs _ ⟨hts.1.self, hkind⟩ hknown
    obtain ⟨hafter, hmore⟩ := hrest.deep hkeyed hts.2 hs
    have hown := hrest.grows.sections _ hknown
    rw [visited_cons, visitedNode_of_encloses (.inl hkind)]
    exact ⟨hafter, ((hfiled.mono hrest.grows).cons hown).append hmore⟩
  | _, _, _, _, .inverted hkind hbody hrest, hts, hs => by
    obtain ⟨hinside, hfiled⟩ := hbody.deep hkeyed hts.1.nodes hs
    obtain ⟨hafter, hmore⟩ := hrest.deep hkeyed hts.2 hinside
    rw [visited_cons, visitedNode_of_encloses (.inr (.inl hkind))]
    exact ⟨hafter, ((hfiled.mono hrest.grows).cons_other (by rw [hkind]; decide)).append hmore⟩
  | _, _, _, _, .extend hkind hos hrest, hts, hs => by
    obtain ⟨hinside, hfiled⟩ := hos.deep hkeyed hts.1.nodes hs
    obtain ⟨hafter, hmore⟩ := hrest.deep hkeyed hts.2 hinside
    rw [visited_cons, visitedNode_of_parent hkind]
    exact ⟨hafter, ((hfiled.mono hrest.grows).cons_other (by rw [hkind]; decide)).append hmore⟩
  | _, _, _, _, .block hkind hbody hrest, hts, hs => by
    obtain ⟨hinside, hfiled⟩ := hbody.deep hkeyed hts.1.nodes hs
    obtain ⟨hafter, hmore⟩ := hrest.deep hkeyed hts.2 hinside
    rw [visited_cons, visitedNode_of_encloses (.inr (.inr (.inl hkind)))]
    exact ⟨hafter, ((hfiled.mono hrest.grows).cons_other (by rw [hkind]; decide)).append hmore⟩

theorem WalkedOverrides.deep (hkeyed : tree.Keyed digest source) :
    ∀ {s s' : State} {ts : List Token} {os : List (String × String)},
      WalkedOverrides digest source s ts os s' →
      EverywhereIn (Within · tree.nodes) ts → s.Deep digest source tree →
        s'.Deep digest source tree ∧ s'.Files digest source (visited true ts)
  | _, _, _, _, .nil, _, hs => by
    rw [visited_nil]
    exact ⟨hs, .nil⟩
  | _, _, _, _, .skip hkind hrest, hts, hs => by
    rw [visited_cons_of_scaffolding hkind]
    exact hrest.deep hkeyed hts.2 hs
  | _, _, _, _, .override hkind hbody hrest, hts, hs => by
    obtain ⟨hinside, hfiled⟩ := hbody.deep hkeyed hts.1.nodes hs
    obtain ⟨hafter, hmore⟩ := hrest.deep hkeyed hts.2 hinside
    have hfiled := (hfiled.mono (.insert_block _ _ _)).mono hrest.grows
    rw [visited_cons_of_override hkind, visitedNode_of_encloses (.inr (.inr (.inr hkind)))]
    exact ⟨hafter, (hfiled.cons_other (by rw [hkind]; decide)).append hmore⟩

end

/-! ## What is on file is code of a section -/

/-- **An entry stems from a section** of a tree: it is filed under the key of
its tag, and its body is the code of the nodes inside. -/
structure StemsFrom (digest : String → String) (source : String) (tree : Tree) (key : String)
    (found : SectionBody) (t : Token) : Prop where
  tag : tree.HasSection t
  key : key = sectionKey digest source t
  filed : found = sectionBody source t found.body
  walked : ∃ s s', Walked digest source s t.nodes found.body s'

/-- All that is on file stems from sections of a tree. -/
def State.Stems (digest : String → String) (source : String) (tree : Tree) (s : State) : Prop :=
  ∀ entry ∈ s.sections, ∃ t, StemsFrom digest source tree entry.1 entry.2 t

theorem State.Stems.insert_section {s : State} {key : String} {found : SectionBody} {t : Token}
    (h : s.Stems digest source tree) (hfound : StemsFrom digest source tree key found t) :
    { s with sections := Entries.insert s.sections key found : State }.Stems
      digest source tree := by
  intro entry hentry
  rcases Entries.mem_insert hentry with rfl | hentry
  · exact ⟨t, hfound⟩
  · exact h entry hentry

open Token in
mutual

/-- **A walk files nothing but code of the sections it walks.** -/
theorem Walked.stems : ∀ {s s' : State} {ts : List Token} {code : List Instr},
    Walked digest source s ts code s' → EverywhereIn (Within · tree.nodes) ts →
      s.Stems digest source tree → s'.Stems digest source tree
  | _, _, _, _, .nil, _, hs => hs
  | _, _, _, _, .pragma _ hrest, hts, hs => hrest.stems hts.2 hs
  | _, _, _, _, .leaf _ hrest, hts, hs => hrest.stems hts.2 hs
  | _, _, _, _, .newSection hkind _ hbody hrest, hts, hs => by
    have hinside := hbody.stems hts.1.nodes hs
    have ht : tree.HasSection _ := ⟨hts.1.self, hkind⟩
    exact hrest.stems hts.2 (State.Stems.insert_section hinside ⟨ht, rfl, rfl, _, _, hbody⟩)
  | _, _, _, _, .knownSection _ _ hrest, hts, hs => hrest.stems hts.2 hs
  | _, _, _, _, .inverted _ hbody hrest, hts, hs => hrest.stems hts.2 (hbody.stems hts.1.nodes hs)
  | _, _, _, _, .extend _ hos hrest, hts, hs => hrest.stems hts.2 (hos.stems hts.1.nodes hs)
  | _, _, _, _, .block _ hbody hrest, hts, hs => hrest.stems hts.2 (hbody.stems hts.1.nodes hs)

theorem WalkedOverrides.stems : ∀ {s s' : State} {ts : List Token} {os : List (String × String)},
    WalkedOverrides digest source s ts os s' → EverywhereIn (Within · tree.nodes) ts →
      s.Stems digest source tree → s'.Stems digest source tree
  | _, _, _, _, .nil, _, hs => hs
  | _, _, _, _, .skip _ hrest, hts, hs => hrest.stems hts.2 hs
  | _, _, _, _, .override _ hbody hrest, hts, hs =>
    hrest.stems hts.2 (hbody.stems hts.1.nodes hs)

end

end Compile

/-! ## What is on file -/

/-- **The delimiters and the text of a section** as they stand in the template:
those in force at its tag, and what is between its tags. -/
structure Tree.WrittenAs (delimiters : Delimiters) (source : String) (t : Token) (d : Delimiters)
    (text : String) : Prop where
  inForce : Scan.InForce delimiters source t d
  delimiters : t.delimiters? = some d
  slice : Text.slice? (t.offset?.getD 0) (t.stop?.getD (t.offset?.getD 0)) source.toList =
    some text.toList

theorem Tree.WrittenAs.source_eq {delimiters d : Delimiters} {source text : String} {t : Token}
    (h : WrittenAs delimiters source t d text) : Compile.sectionSource source t = text := by
  rw [Compile.sectionSource, h.slice]
  exact String.ofList_toList

namespace Program

open Compile (StemsFrom sectionBody sectionKey)
open Mustache.Tree (WrittenAs)

section

variable {delimiters : Delimiters} {digest : String → String} {source name : String}
variable {defaults pragmas : List Pragma} {settings : CompileSettings}
variable {ts : List Token} {tree : Tree} {p : Program}

/-- The sections of a parsed template are told apart. -/
theorem keyed_of_parsed (hd : delimiters.Accepted)
    (hscan : Token.scan delimiters source = .ok ts) (htree : Tree.ofTokens pragmas ts = .ok tree)
    (hfree : Set.InjOn digest (tree.sectionTexts source)) : tree.Keyed digest source where
  accepted := Tree.accepted_nodes hscan htree hd
  places _ ht := Tree.exists_sectionAt hd hscan htree ht.within ht.kind
  visits _ ht := (Tree.grown_of_scan hscan htree).mem_visited ht.within ht.kind
  free := hfree

/-- A program is the code of its tree, and its sections stem from those of the
tree. -/
theorem stems_of_compile
    (h : compile digest defaults settings name source tree.nodes = .ok p) :
    (∃ s s', Compile.Walked digest source s tree.nodes p.body s') ∧
      ∀ key found, Entries.get? p.sections key = some found →
        ∃ t, StemsFrom digest source tree key found t := by
  obtain ⟨body, s, hwalked, rfl⟩ := exists_walked h
  have hstems : s.Stems digest source tree := hwalked.stems (.within tree.nodes) nofun
  exact ⟨⟨_, _, hwalked⟩, fun key found hfound => hstems _ (Entries.mem_of_get? hfound)⟩

/-- **Every section is on file**, with its text and its delimiters. -/
theorem exists_get?_of_section (hkeyed : tree.Keyed digest source)
    (hcompile : compile digest defaults settings name source tree.nodes = .ok p) {t : Token}
    (ht : tree.HasSection t) :
    ∃ body, Entries.get? p.sections (sectionKey digest source t) =
      some (sectionBody source t body) := by
  have hhas : Entries.has p.sections (sectionKey digest source t) = true := by
    obtain ⟨body, s, hwalked, rfl⟩ := exists_walked hcompile
    obtain ⟨-, hfiled⟩ := hwalked.deep hkeyed (.within tree.nodes) fun _ _ h => nomatch h
    exact hfiled _ ⟨t, hkeyed.visits t ht, ht.kind, rfl⟩
  obtain ⟨found, hfound⟩ := Option.isSome_iff_exists.1 hhas
  obtain ⟨u, hstems⟩ := (stems_of_compile hcompile).2 _ found hfound
  obtain ⟨hdelimiters, hsource⟩ := (hkeyed.sectionKey_eq_iff ht hstems.tag).1 hstems.key
  refine ⟨found.body, hfound.trans (congrArg some (hstems.filed.trans ?_))⟩
  rw [sectionBody, sectionBody, hsource, hdelimiters]

/-- **One section on file for each text, and none missing.** Each section of
the tree, at any depth, has the delimiters in force at its tag and the text
between its tags; two have the same key exactly if these are the same. The keys
on file are those of all the sections of the tree, and under the key of a
section are its text and its delimiters, absent if standard. -/
theorem one_section_per_text (hd : delimiters.Accepted)
    (hscan : Token.scan delimiters source = .ok ts) (htree : Tree.ofTokens pragmas ts = .ok tree)
    (hcompile : compile digest defaults settings name source tree.nodes = .ok p)
    (hfree : Set.InjOn digest (tree.sectionTexts source)) :
    (∀ t, tree.HasSection t → ∃ d text, WrittenAs delimiters source t d text) ∧
    (∀ t u d d' text text', tree.HasSection t → tree.HasSection u →
      WrittenAs delimiters source t d text → WrittenAs delimiters source u d' text' →
      (sectionKey digest source t = sectionKey digest source u ↔ d = d' ∧ text = text')) ∧
    (Entries.names p.sections).Nodup ∧
    (∀ key, key ∈ Entries.names p.sections ↔
      ∃ t, tree.HasSection t ∧ key = sectionKey digest source t) ∧
    ∀ t d text, tree.HasSection t → WrittenAs delimiters source t d text →
      ∃ body, Entries.get? p.sections (sectionKey digest source t) =
        some ⟨text, Delimiters.unlessStandard (some d), body⟩ := by
  have hkeyed := keyed_of_parsed hd hscan htree hfree
  refine ⟨fun t ht => ?_, fun t u d d' text text' ht hu hw hw' => ?_,
    (distinct_of_compile hcompile).sections, fun key => ?_, fun t d text ht hw => ?_⟩
  · obtain ⟨start, segments, inside, hplace⟩ := hkeyed.places t ht
    obtain ⟨d, halone⟩ :=
      ht.within.of_everywhereIn (Tree.sections_ofTokens hd hscan htree) ht.kind
    refine ⟨d, String.ofList segments.flatten, halone.inForce, halone.delimiters, ?_⟩
    rw [String.toList_ofList]
    exact hplace.slice
  · rw [hkeyed.sectionKey_eq_iff ht hu, hw.delimiters, hw'.delimiters, hw.source_eq, hw'.source_eq,
      Option.some_inj]
  · rw [Entries.mem_names_iff]
    constructor
    · intro hknown
      obtain ⟨found, hfound⟩ := Option.isSome_iff_exists.1 hknown
      obtain ⟨t, hstems⟩ := (stems_of_compile hcompile).2 key found hfound
      exact ⟨t, hstems.tag, hstems.key⟩
    · rintro ⟨t, ht, rfl⟩
      obtain ⟨body, hget⟩ := exists_get?_of_section hkeyed hcompile ht
      exact Option.isSome_iff_exists.2 ⟨_, hget⟩
  · obtain ⟨body, hget⟩ := exists_get?_of_section hkeyed hcompile ht
    rw [sectionBody, hw.source_eq, hw.delimiters] at hget
    exact ⟨body, hget⟩

end

/-! ### A section that is walked once -/

/-- The text of a section, with a section inside. -/
def nestedText : String := "\x7b\x7b#b\x7d\x7dx\x7b\x7b/b\x7d\x7d"

/-- Two sections of one text, and the text of the section inside once more
between tags in other delimiters. -/
def nestedTwice : String :=
  "\x7b\x7b#a\x7d\x7d" ++ nestedText ++ "\x7b\x7b/a\x7d\x7d\x7b\x7b#a\x7d\x7d" ++ nestedText ++
    "\x7b\x7b/a\x7d\x7d\x7b\x7b=<% %>=\x7d\x7d<%#b%>x<%/b%>"

/-- Five section tags, three texts under their delimiters, and their digests. -/
theorem one_section_per_text_of_nested :
    let settings : CompileSettings := ⟨false, true, 0⟩
    ∃ ts tree p, Token.scan .standard nestedTwice = .ok ts ∧ Tree.ofTokens [] ts = .ok tree ∧
      compile Sha256.ofText [] settings "" nestedTwice tree.nodes = .ok p ∧
      Set.InjOn Sha256.ofText (tree.sectionTexts nestedTwice) ∧
      p.sections.map (fun s => (s.2.source, s.2.delimiters)) =
        [("x", none), (nestedText, none), ("x", some ⟨"<%", "%>"⟩)] ∧
      ∀ key, key ∈ Entries.names p.sections ↔
        ∃ t, tree.HasSection t ∧ key = sectionKey Sha256.ofText nestedTwice t := by
  intro settings
  have hfiled : ((Token.scan .standard nestedTwice).toOption.bind fun ts =>
      (Tree.ofTokens [] ts).toOption.bind fun tree =>
        (compile Sha256.ofText [] settings "" nestedTwice tree.nodes).toOption.map fun p =>
          (p.sections.map fun s => (s.2.source, s.2.delimiters), tree.visitedTexts nestedTwice)) =
      some ([("x", none), (nestedText, none), ("x", some ⟨"<%", "%>"⟩)],
        ["\n" ++ nestedText, "\nx", "\n" ++ nestedText, "\nx",
          Compile.sectionText (some ⟨"<%", "%>"⟩) "x"]) := by
    rw [Sha256.ofText_eq_numbers]
    decide +kernel
  obtain ⟨ts, hscan, hfiled⟩ := exists_of_toOption_bind hfiled
  obtain ⟨tree, htree, hfiled⟩ := exists_of_toOption_bind hfiled
  obtain ⟨p, hcompile, hfiled⟩ := exists_of_toOption_map hfiled
  obtain ⟨hfiled, htexts⟩ := Prod.mk.inj hfiled
  have hfree : Set.InjOn Sha256.ofText (tree.sectionTexts nestedTwice) := by
    refine Tree.injOn_sectionTexts hscan htree ?_
    rw [htexts, Sha256.ofText_eq_numbers]
    decide +kernel
  obtain ⟨-, -, -, hkeys, -⟩ :=
    one_section_per_text Delimiters.accepted_standard hscan htree hcompile hfree
  exact ⟨ts, tree, p, hscan, htree, hcompile, hfree, hfiled, hkeys⟩

end Program

end Mustache
