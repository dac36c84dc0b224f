import Mustache.Proofs.Blocks
import Mustache.Proofs.DigestNumbers
import Mustache.Proofs.Serving
/-!
# Mustache — the most derived override wins

Templates extend one another: each is a parent tag that names the next and
has overrides, and the last one is a row of blocks. Rendering the first one
runs down the chain, and each parent tag puts its overrides on the stack of
the context. A block looks for its override from the bottom of that stack,
so it gets the one of the most derived template that has any
(`override?_pushOverrides`, `Engine.render_chain`).
-/

namespace Mustache

/-! ## Chains of templates -/

/-- What a parent tag puts in the place of a block: the last of its overrides
for it. -/
def Extension.override? (x : Extension) (name : String) : Option String :=
  (x.overrides.reverse.find? fun b => b.name = name).map Block.text

/-- The parent tag without its overrides for other blocks than these. -/
def Extension.restrict (names : List String) (x : Extension) : Extension :=
  { x with overrides := x.overrides.filter fun b => names.contains b.name }

/-- Templates of which each extends the next, most derived one first. -/
inductive Chain where
  | base (blocks : List Block)
  | extend (x : Extension) (parent : Chain)

namespace Chain

/-- The blocks at its end. -/
def blocks : Chain → List Block
  | base bs => bs
  | extend _ parent => parent.blocks

/-- The parent tags, most derived one first. -/
def extensions : Chain → List Extension
  | base _ => []
  | extend x parent => x :: parent.extensions

/-- The text of the most derived template. -/
def source : Chain → String
  | base bs => Block.source bs
  | extend x _ => x.source

/-- The texts of all templates, most derived one first. -/
def sources : Chain → List String
  | base bs => [Block.source bs]
  | extend x parent => x.source :: parent.sources

/-- All tags have their names, and all texts are bare. -/
def Fits (set : PragmaSet) : Chain → Prop
  | base bs => ∀ b ∈ bs, b.Fits set
  | extend x parent => x.Fits set ∧ parent.Fits set

instance decidableFits (set : PragmaSet) : (chain : Chain) → Decidable (chain.Fits set)
  | base bs => inferInstanceAs (Decidable (∀ b ∈ bs, b.Fits set))
  | extend x parent =>
    have := decidableFits set parent
    inferInstanceAs (Decidable (x.Fits set ∧ parent.Fits set))

/-- Every template but the first is found under the name that the one before it
has for its parent. -/
def Linked (finds : String → String → Prop) : Chain → Prop
  | base _ => True
  | extend x parent => finds x.name parent.source ∧ parent.Linked finds

/-- What the most derived override for a block puts in its place. -/
def override? (chain : Chain) (name : String) : Option String :=
  chain.extensions.findSome? fun x => x.override? name

/-- **What the chain says**: for each block at its end the most derived override,
or else the text in the block. -/
def text (chain : Chain) : String :=
  String.join (chain.blocks.map fun b => (chain.override? b.name).getD b.text)

/-- The chain without overrides for other blocks than these. -/
def restrict (names : List String) : Chain → Chain
  | base bs => base bs
  | extend x parent => extend (x.restrict names) (parent.restrict names)

/-- The chain without overrides for blocks that are not at its end. -/
def declared (chain : Chain) : Chain := chain.restrict (chain.blocks.map (·.name))

end Chain

theorem Chain.source_mem_sources (chain : Chain) : chain.source ∈ chain.sources := by
  cases chain <;> exact List.mem_cons_self

/-! ### Overrides that nothing declares -/

theorem Extension.override?_restrict {names : List String} {name : String} (h : name ∈ names)
    (x : Extension) : (x.restrict names).override? name = x.override? name := by
  have hfound (bs : List Block) :
      (bs.filter fun b => names.contains b.name).find? (fun b => b.name = name) =
        bs.find? fun b => b.name = name := by
    rw [List.find?_filter]
    congr 1
    funext b
    by_cases hname : b.name = name
    · simp [hname, h]
    · simp [hname]
  rw [override?, override?, restrict, ← List.filter_reverse, hfound]

namespace Chain

theorem override?_extend (x : Extension) (parent : Chain) (name : String) :
    (extend x parent).override? name = (x.override? name).or (parent.override? name) := by
  change (x :: parent.extensions).findSome? _ = _
  rw [List.findSome?_cons]
  cases x.override? name <;> rfl

theorem blocks_restrict (names : List String) (chain : Chain) :
    (chain.restrict names).blocks = chain.blocks := by
  induction chain with
  | base bs => rfl
  | extend x parent ih => exact ih

theorem override?_restrict {names : List String} {name : String} (h : name ∈ names)
    (chain : Chain) : (chain.restrict names).override? name = chain.override? name := by
  induction chain with
  | base bs => rfl
  | extend x parent ih =>
    rw [restrict, override?_extend, override?_extend, Extension.override?_restrict h, ih]

/-- **Overrides for blocks that are not there contribute nothing.** -/
theorem text_declared (chain : Chain) : chain.declared.text = chain.text := by
  rw [text, text, declared, blocks_restrict]
  refine congrArg String.join (List.map_congr_left fun b hb => ?_)
  rw [override?_restrict (List.mem_map_of_mem hb)]

end Chain

/-! ## Overrides in the context -/

/-- The override has this text. -/
def BlockRef.Has (block : BlockRef) (text : String) : Prop :=
  ∃ body, Entries.get? block.program.blocks block.key = some body ∧ Instr.Writes text body

/-- The context has these texts for blocks, and no others. -/
def Context.Offers (c : Context) (look : String → Option String) : Prop :=
  ∀ name, Option.Rel BlockRef.Has (c.override? name) (look name)

namespace Context

/-- **An override that is put on the stack counts where there was none
before.** -/
theorem override?_pushOverrides (c : Context) (table : Entries BlockRef) (name : String) :
    (c.pushOverrides table).override? name =
      (c.override? name).or (Entries.get? table name) := by
  unfold override? pushOverrides
  rw [List.reverse_cons, List.findSome?_append, List.findSome?_singleton]

theorem offers_nothing {c : Context} (h : c.overrides = []) : c.Offers fun _ => none := by
  intro name
  rw [override?, h]
  exact .none

/-- The overrides of a parent tag come behind those that are there. -/
theorem Offers.pushOverrides {c : Context} {look : String → Option String} (h : c.Offers look)
    {p : Program} {x : Extension} {os : List (String × String)}
    (hos : List.Forall₂ (Block.FiledIn p.blocks) x.overrides os) :
    (c.pushOverrides (Render.overrideTable p os)).Offers
      fun name => (look name).or (x.override? name) := by
  intro name
  have htable : Option.Rel BlockRef.Has (Entries.get? (Render.overrideTable p os) name)
      (x.override? name) := by
    rw [Render.overrideTable, Entries.get?_ofPairs, Extension.override?, ← List.map_reverse]
    have hreverse := List.forall₂_reverse_iff.2 hos
    generalize x.overrides.reverse = bs at hreverse
    generalize os.reverse = os at hreverse
    induction hreverse with
    | nil => exact .none
    | @cons b o bs os ho _ ih =>
      obtain ⟨hname, body, hget, hwrites⟩ := ho
      rw [List.map_cons, List.find?_cons, List.find?_cons]
      dsimp only
      rw [hname]
      cases decide (b.name = name) with
      | true => exact .some ⟨body, hget, hwrites⟩
      | false => exact ih
  have hbefore := h name
  rw [override?_pushOverrides]
  change Option.Rel _ _ ((look name).or (x.override? name))
  generalize c.override? name = found at hbefore
  generalize look name = text at hbefore
  cases hbefore with
  | some hblock => exact .some hblock
  | none => exact htable

end Context

/-! ## Loading the chain -/

theorem Engine.hasAccepted_of_standard {e : Engine} (h : e.startingDelimiters none = .standard) :
    e.HasAccepted := by
  intro delimiters hdelimiters
  rw [Engine.startingDelimiters, hdelimiters] at h
  obtain rfl : delimiters = .standard := h
  exact Delimiters.accepted_standard

/-- Each template of a chain compiles. -/
theorem Engine.exists_compiled_chain {e : Engine} (hblocks : .blocks ∈ e.pragmas)
    (hstart : e.startingDelimiters none = .standard) {chain : Chain} (hfits : chain.Fits (.ofPragmas e.pragmas)) :
    ∃ p, e.compiled chain.source none = .ok p := by
  cases chain with
  | base bs =>
    obtain ⟨p, hp, -⟩ := exists_compiled_row hblocks hstart hfits
    exact ⟨p, hp⟩
  | extend x parent =>
    obtain ⟨p, _, hp, -⟩ := exists_compiled_extension hblocks hstart hfits.1
    exact ⟨p, hp⟩

/-! ## Rendering the chain -/

namespace Render

variable {e : Engine} {p : Program} {s : State}

/-- Code that writes a text writes it, and touches nothing. -/
theorem outcome_writes {again : Runner} {text : String} {body : List Instr}
    (h : Instr.Writes text body) : outcome (instrs e again p "" body) s = (.ok text, s) := by
  cases h with
  | nothing => rfl
  | text _ starts =>
    have hinstr : outcome (instr e again p "" (.text text starts)) s = (.ok text, s) := by
      cases starts <;> exact congrArg (·, s) (congrArg Except.ok String.empty_append)
    rw [instrs, outcome_bind, hinstr, andThen_ok]
    exact congrArg (·, s) (congrArg Except.ok String.append_empty)

/-- **A row of blocks** writes for each block what the context has for it, or
else its own text. -/
theorem outcome_row {bs : List Block} {code : List Instr} {look : String → Option String}
    (hcode : List.Forall₂ Block.Code bs code) (hs : s.context.Offers look) (depth : Nat) :
    outcome (instrs e (Render.code e (depth + 1)) p "" code) s =
      (.ok (String.join (bs.map fun b => (look b.name).getD b.text)), s) := by
  induction hcode with
  | nil => rfl
  | @cons b i bs code hown _ ih =>
    obtain ⟨body, rfl, hwrites⟩ := hown
    have hblock : outcome (instr e (Render.code e (depth + 1)) p "" (.block b.name body)) s =
        (.ok ((look b.name).getD b.text), s) := by
      have hfound := hs b.name
      rw [instr, outcome_bind, outcome_get, andThen_ok]
      generalize s.context.override? b.name = found at hfound
      generalize look b.name = text at hfound
      cases hfound with
      | none => exact outcome_writes hwrites
      | some hhas =>
        obtain ⟨override, hget, hoverride⟩ := hhas
        dsimp only
        rw [overriding, hget]
        exact outcome_writes hoverride
    rw [instrs, outcome_bind, hblock, andThen_ok, outcome_bind, ih, andThen_ok, outcome_pure,
      List.map_cons, String.join_cons]

/-- **A parent tag** writes what its parent does where the context has the
overrides of the tag behind its own. -/
theorem exists_outcome_extend {again : Runner} {parent : Program} {x : Extension}
    {os : List (String × String)} {store : Store} {look : String → Option String} {text : String}
    (hasked : outcome (onStore (e.partialProgram x.name)) s =
      (.ok (some parent), ⟨s.context, store⟩))
    (hos : List.Forall₂ (Block.FiledIn p.blocks) x.overrides os) (hs : s.context.Offers look)
    (hparent : ∀ c : Context, (c.Offers fun name => (look name).or (x.override? name)) →
      ∃ s', outcome (whole again parent "") ⟨c, store⟩ = (.ok text, s')) :
    ∃ s', outcome (instrs e again p "" [.extend (.fixed x.name) os]) s = (.ok text, s') := by
  have htag : ∃ s', outcome (instr e again p "" (.extend (.fixed x.name) os)) s =
      (.ok text, s') := by
    rw [instr, Render.parent, templateName, outcome_bind, outcome_pure, andThen_ok, outcome_bind,
      hasked, andThen_ok]
    dsimp only
    split
    · next hempty =>
      -- without overrides nothing is put on the stack
      obtain rfl := List.isEmpty_iff.1 hempty
      have hnone (name : String) : x.override? name = none := by
        rw [Extension.override?, List.forall₂_nil_right_iff.1 hos]
        rfl
      refine hparent s.context ?_
      simpa only [hnone, Option.or_none] using hs
    · obtain ⟨s', hrun⟩ := hparent _ (hs.pushOverrides hos)
      exact ⟨_, by rw [withOverrides, outcome_between, hrun]⟩
  obtain ⟨s', hrun⟩ := htag
  refine ⟨s', ?_⟩
  rw [instrs, outcome_bind, hrun, andThen_ok]
  exact congrArg (·, s') (congrArg Except.ok String.append_empty)

variable {texts : List String} {I : Store → Prop}
variable (hnames : Set.InjOn e.digest (e.fingerprints texts)) (hcache : e.cache.Internal)
variable (hblocks : .blocks ∈ e.pragmas) (hstart : e.startingDelimiters none = .standard)
variable (hsteady : e.Steady texts I)

include hnames hcache hblocks hstart hsteady

/-- **The code of a chain** writes for each block at its end what the context has
for it, or else what the most derived override gives, or else its own text. -/
theorem exists_outcome_chain {chain : Chain} (hfits : chain.Fits (.ofPragmas e.pragmas))
    (hsources : chain.sources ⊆ texts)
    (hfree : ∀ x ∈ chain.extensions, Set.InjOn e.digest x.overrideTexts) (hlinked : chain.Linked fun name text =>
      ∃ loader ∈ e.partialLoader?, loader.Serves I name text)
    (hp : e.compiled chain.source none = .ok p) {look : String → Option String}
    (hlook : s.context.Offers look) (hs : I s.store) {depth : Nat}
    (hdepth : chain.extensions.length + 2 ≤ depth) :
    ∃ s', outcome (code e depth p p.body "") s =
      (.ok (String.join (chain.blocks.map fun b =>
        ((look b.name).or (chain.override? b.name)).getD b.text)), s') := by
  induction chain generalizing p s look depth with
  | base bs =>
    obtain ⟨q, hq, hcode⟩ := Engine.exists_compiled_row hblocks hstart hfits
    cases hp.symm.trans hq
    obtain ⟨depth, rfl⟩ := Nat.exists_eq_add_of_le' hdepth
    refine ⟨s, (outcome_row hcode hlook depth).trans ?_⟩
    have hnone (b : Block) : (look b.name).or ((Chain.base bs).override? b.name) = look b.name :=
      Option.or_none
    simp only [hnone]
    rfl
  | extend x parent ih =>
    obtain ⟨hx, hfits⟩ := hfits
    obtain ⟨hfound, hlinked⟩ := hlinked
    obtain ⟨hown, hfree⟩ := List.forall_mem_cons.1 hfree
    obtain ⟨q, os, hq, hbody, hfiled⟩ := Engine.exists_compiled_extension hblocks hstart hx
    have hos : List.Forall₂ (Block.FiledIn q.blocks) x.overrides os := hfiled hown
    cases hp.symm.trans hq
    -- one level of nesting goes to the parent, which is offered the overrides of this one too
    obtain ⟨r, hr⟩ := Engine.exists_compiled_chain hblocks hstart hfits
    have hsources : parent.sources ⊆ texts := (List.cons_subset.1 hsources).2
    obtain ⟨store, hprogram, hstore⟩ :=
      Engine.exists_partialProgram hnames hcache (Engine.hasAccepted_of_standard hstart) hsteady
        (hsources parent.source_mem_sources) hr hfound hs
    have hasked : outcome (onStore (e.partialProgram x.name)) s =
        (.ok (some r), ⟨s.context, store⟩) := by
      rw [outcome_onStore, hprogram]
      rfl
    have hdepth : parent.extensions.length + 1 + 2 ≤ depth := hdepth
    obtain ⟨depth, rfl⟩ : ∃ d, depth = d + 1 := ⟨depth - 1, by omega⟩
    have hdepth : parent.extensions.length + 2 ≤ depth := by omega
    have hrun := exists_outcome_extend hasked hos hlook fun c hc =>
      ih hfits hsources hfree hlinked hr (s := ⟨c, store⟩) hc hstore hdepth
    simp only [Option.or_assoc, ← Chain.override?_extend, ← hbody] at hrun
    exact hrun

end Render

namespace Engine

variable {e : Engine} {I : Store → Prop}

/-- **The most derived override wins.** Each template of a chain is one parent tag
that names the next one, around any overrides with bare texts, and the last one
is a row of blocks with such texts. The digests of the templates do not collide,
and neither do those of the overrides of one tag. Then rendering the first one
gives for each block, in order, the override of the first template that has one,
the last if it has several, or else the text in the block. Overrides for other
blocks contribute nothing. -/
theorem render_chain (hcache : e.cache.Internal) (hblocks : .blocks ∈ e.pragmas)
    (hstart : e.startingDelimiters none = .standard) {chain : Chain}
    (hfits : chain.Fits (.ofPragmas e.pragmas))
    (hnames : Set.InjOn e.digest (e.fingerprints chain.sources))
    (hfree : ∀ x ∈ chain.extensions, Set.InjOn e.digest x.overrideTexts)
    (hsteady : e.Steady chain.sources I) {name : String}
    (hname : e.loader.Serves I name chain.source)
    (hlinked : chain.Linked fun name text =>
      ∃ loader ∈ e.partialLoader?, loader.Serves I name text)
    {s : Store} (hs : I s) {depth : Nat} (hdepth : chain.extensions.length + 2 ≤ depth)
    (data : Value) :
    (outcome (e.render depth name data) s).1 = .ok chain.text ∧
      chain.declared.text = chain.text := by
  refine ⟨?_, chain.text_declared⟩
  obtain ⟨p, hp⟩ := exists_compiled_chain hblocks hstart hfits
  obtain ⟨store, htemplate, hstore⟩ := exists_template hnames hcache
    (hasAccepted_of_standard hstart) hsteady chain.source_mem_sources hp hname hs
  have hnothing : (e.contextFor data).Offers fun _ => none :=
    Context.offers_nothing (overrides_contextFor e data)
  obtain ⟨s', hrun⟩ := Render.exists_outcome_chain hnames hcache hblocks hstart hsteady hfits
    (List.Subset.refl _) hfree hlinked hp (s := ⟨e.contextFor data, store⟩) hnothing hstore hdepth
  rw [result_render htemplate, hrun]
  rfl

/-- A page that extends a site that extends a layout. -/
def heirs : Chain :=
  let block (name text : String) : Block := ⟨⟨name, name.toList, name.toList⟩, text⟩
  .extend ⟨⟨"site", " site ".toList, "site".toList⟩,
      [block "title" "first", block "gone" "x", block "title" "last"]⟩ <|
    .extend ⟨⟨"layout", "layout".toList, "layout".toList⟩,
        [block "title" "never", block "foot" "below"]⟩ <|
      .base [block "title" "none", block "body" " and ", block "foot" ""]

/-- An engine that has the three. -/
def heirEngine : Engine :=
  { standard .inert Sha256.ofText 0 with
    pragmas := [.blocks]
    loader := .fixed
      [("page", "\x7b\x7b< site \x7d\x7d\x7b\x7b$title\x7d\x7dfirst\x7b\x7b/title\x7d\x7d" ++
          "\x7b\x7b$gone\x7d\x7dx\x7b\x7b/gone\x7d\x7d" ++
          "\x7b\x7b$title\x7d\x7dlast\x7b\x7b/title\x7d\x7d\x7b\x7b/site\x7d\x7d"),
        ("site", "\x7b\x7b<layout\x7d\x7d\x7b\x7b$title\x7d\x7dnever\x7b\x7b/title\x7d\x7d" ++
          "\x7b\x7b$foot\x7d\x7dbelow\x7b\x7b/foot\x7d\x7d\x7b\x7b/layout\x7d\x7d"),
        ("layout", "\x7b\x7b$title\x7d\x7dnone\x7b\x7b/title\x7d\x7d" ++
          "\x7b\x7b$body\x7d\x7d and \x7b\x7b/body\x7d\x7d" ++
          "\x7b\x7b$foot\x7d\x7d\x7b\x7b/foot\x7d\x7d")] }

/-- The last override of the page, the text of the layout, the override of the
site. -/
theorem render_chain_of_heirs :
    let store := Store.ofFiles (.empty "" [])
    heirs.Fits (.ofPragmas heirEngine.pragmas) ∧
      Set.InjOn heirEngine.digest (heirEngine.fingerprints heirs.sources) ∧
      (∀ x ∈ heirs.extensions, Set.InjOn heirEngine.digest x.overrideTexts) ∧
      heirs.text = "last and below" ∧
      (outcome (heirEngine.render 4 "page" .null) store).1 = .ok heirs.text ∧
      heirs.declared.text = heirs.text := by
  intro store
  have hfits : heirs.Fits (.ofPragmas heirEngine.pragmas) := by decide +kernel
  have hnames : Set.InjOn heirEngine.digest (heirEngine.fingerprints heirs.sources) := by
    refine injOn_fingerprints ?_
    change (heirs.sources.map fun text =>
      Sha256.ofText (heirEngine.textFingerprint text none)).Nodup
    rw [Sha256.ofText_eq_numbers]
    decide +kernel
  have hfree : ∀ x ∈ heirs.extensions, Set.InjOn heirEngine.digest x.overrideTexts := by
    have hdigests : ∀ x ∈ heirs.extensions, (x.listedTexts.dedup.map Sha256.ofText).Nodup := by
      rw [Sha256.ofText_eq_numbers]
      decide +kernel
    exact fun x hx => Extension.injOn_overrideTexts (hdigests x hx)
  have hloads {name text : String}
      (h : (outcome (heirEngine.loader.load name) store).1 = .ok (.text text)) :
      heirEngine.loader.Serves
        (fun s => heirEngine.RetainsAll heirs.sources s ∧ s.tables = store.tables) name text :=
    Loader.InMemory.serves (.fixed _) _ h
  have hpage : heirEngine.loader.Serves _ "page" heirs.source := hloads rfl
  have hlinked : heirs.Linked fun name text =>
      ∃ loader ∈ heirEngine.partialLoader?, loader.Serves
        (fun s => heirEngine.RetainsAll heirs.sources s ∧ s.tables = store.tables) name text :=
    ⟨⟨_, rfl, hloads rfl⟩, ⟨_, rfl, hloads rfl⟩, trivial⟩
  refine ⟨hfits, hnames, hfree, by decide +kernel, ?_⟩
  exact render_chain .disabled (by decide) rfl hfits hnames hfree
    (heirEngine.steady_tables heirs.sources store.tables) hpage hlinked
    ⟨retainsAll_ofFiles .disabled _ _, rfl⟩ (Nat.le_refl 4) .null

end Engine

end Mustache
