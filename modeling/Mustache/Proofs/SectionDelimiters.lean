import Mustache.Proofs.DigestNumbers
import Mustache.Proofs.SectionKeys
import Mustache.Proofs.SectionTexts
import Mustache.Proofs.Verbatim
/-!
# Mustache — sections work in their own delimiters

What a procedure has rendered in a section starts with the delimiters that
are in force at the tag of the section, and so does what it gives for the
section. The delimiters reach the engine as none where they are standard,
and there the engine falls back on its own. So this holds as far as the
engine honours the delimiters (`works_in_delimiters`): all of them if it
starts with standard ones, and otherwise all but these.

What a procedure gives is not rendered where the opening delimiter does not
stand in it. That makes no difference: such a text renders to itself
(`rendersToItself_of_no_tag`).
-/

namespace Mustache

open Delimiters (unlessStandard)

/-- The program of a template depends on what is asked for by the delimiters
it starts with. -/
theorem Engine.program_eq_of_startingDelimiters {e : Engine} {asked asked' : Option Delimiters}
    (h : e.startingDelimiters asked = e.startingDelimiters asked') (loaded : Loaded)
    (cache : Cache) : e.program loaded asked cache = e.program loaded asked' cache := by
  unfold program className textFingerprint sourceFingerprint settingsJson fetch compileAndSave
    compile
  rw [h]

namespace Render

variable {e : Engine} {again : Runner} {d : Delimiters}

/-- Render a text as a template that starts with these delimiters. -/
def givenFrom (e : Engine) (again : Runner) (d : Delimiters) (text : String) : Render String := do
  whole again (← onStore (e.program (.text text) (some d) e.lambdaCache)) ""

theorem given_eq_givenFrom (text : String) (asked : Option Delimiters) :
    given e again text asked =
      givenFrom e again (e.startingDelimiters (unlessStandard asked)) text := by
  unfold given givenFrom Engine.lambdaProgram
  rw [Engine.program_eq_of_startingDelimiters]
  rfl

/-- What a section writes for the text that its procedure gives. -/
def settled (e : Engine) (again : Runner) (s : SectionBody) (text : String) : Render String :=
  if hasTag s text then given e again text s.delimiters else return text

/-- **A text renders to itself** as a template that starts with these
delimiters: it compiles to a program that writes it and touches nothing.
Where nothing else is kept for the text than its program, rendering it gives
it, changes at most memos and caches, and leaves them so; a sound store stays
sound. -/
structure RendersToItself (e : Engine) (d : Delimiters) (text : String) : Prop where
  compiles : ∀ name, ∃ p, e.compile name text (some d) = .ok p ∧
    ∀ depth σ, outcome (code e (depth + 1) p p.body "") σ = (.ok text, σ)
  given : e.lambdaCache.Internal → ∀ depth σ,
    e.Retains e.lambdaCache text (some d) σ.store →
    ∃ store, outcome (givenFrom e (code e (depth + 1)) d text) σ = (.ok text, { σ with store }) ∧
      store.bare = σ.store.bare ∧ e.Retains e.lambdaCache text (some d) store ∧
      (σ.store.Sound e.digest → store.Sound e.digest)

/-- A text without the opening delimiter renders to itself. -/
theorem rendersToItself_of_no_tag (he : e.HasAccepted) (hd : d.Accepted) {text : String}
    (h : Text.occursIn d.opening.toList text.toList = false) : RendersToItself e d text := by
  have hstart : Text.occursIn (e.startingDelimiters (some d)).opening.toList text.toList = false :=
    h
  have hcompiles : ∀ name, ∃ p, e.compile name text (some d) = .ok p ∧
      ∀ depth σ, outcome (code e (depth + 1) p p.body "") σ = (.ok text, σ) :=
    Engine.exists_compile_verbatim hstart
  refine ⟨hcompiles, fun hcache depth σ hretains => ?_⟩
  have hasked : AcceptedIfAny (some d) := by
    rintro _ ⟨⟩
    exact hd
  obtain ⟨hgiven, hgains⟩ := Engine.gives_program hcache hretains
  obtain ⟨p, hp, hrun⟩ := hcompiles (e.classNameOf (e.textFingerprint text (some d)))
  have hresult : (outcome (e.program (.text text) (some d) e.lambdaCache) σ.store).1 = .ok p :=
    hgiven.trans hp
  refine ⟨_, ?_, hgains.bare, hretains.of_gains hcache he hasked hgains fun _ => rfl,
    fun hsound => hgains.sound hsound fun _ hq => Engine.compiled_of_eq_ok hq rfl he hasked⟩
  unfold givenFrom whole
  rw [outcome_bind, outcome_onStore, hresult]
  exact hrun depth _

/-- **A section works in delimiters.** They are kept as none if they are
standard, and handed to the procedure of the section. A text that it has
rendered starts with them exactly if the engine honours them, and likewise
after others were asked for. What the procedure gives is rendered from them,
too, and where it is not rendered it would render to itself. -/
structure WorksIn (e : Engine) (s : SectionBody) (d : Delimiters) : Prop where
  kept : s.delimiters = unlessStandard (some d)
  runs : ∀ again p value ref indent, value.callable? e.host p.strictCallables = some ref →
    sectionText e again p s value indent = do
      let result ← perform e again (e.host.callInSection ref ⟨s.delimiters⟩ [.str s.source])
      settled e again s (result.text e.host)
  renders : ∀ again text next,
    perform e again ((⟨s.delimiters⟩ : SectionHelper).render text next) = do
      let result ← attempt (givenFrom e again (e.startingDelimiters s.delimiters) text)
      perform e again (next result)
  starts : e.startingDelimiters s.delimiters = d ↔ e.Honours d
  switches : ∀ d' again text next,
    perform e again (((⟨s.delimiters⟩ : SectionHelper).withDelimiters d').render text next) = do
      let result ←
        attempt (givenFrom e again (e.startingDelimiters (unlessStandard (some d'))) text)
      perform e again (next result)
  starts_switched : ∀ d', e.startingDelimiters (unlessStandard (some d')) = d' ↔ e.Honours d'
  writes : e.Honours d → ∀ again text, hasTag s text = true →
    settled e again s text = givenFrom e again d text
  skips : ∀ text, hasTag s text = false →
    (∀ again, settled e again s text = return text) ∧ RendersToItself e d text

theorem worksIn_of_delimiters (he : e.HasAccepted) (hd : d.Accepted) {s : SectionBody} (hs : s.delimiters = unlessStandard (some d)) :
    WorksIn e s d := by
  have hopening : s.delimiters.getD .standard = d := by
    rw [hs, Delimiters.getD_unlessStandard]
  have hsame : unlessStandard s.delimiters = s.delimiters := by
    rw [hs, Delimiters.unlessStandard_idem]
  refine ⟨hs, fun again p value ref indent hvalue => ?_, fun again text next => ?_, ?_,
    fun d' again text next => ?_,
    fun _ => Engine.startingDelimiters_unlessStandard, fun hhonours again text htag => ?_,
    fun text htag => ⟨fun again => ?_, rendersToItself_of_no_tag he hd ?_⟩⟩
  · rw [sectionText, hvalue]
    rfl
  · rw [SectionHelper.render, perform, given_eq_givenFrom, hsame]
  · rw [hs]
    exact Engine.startingDelimiters_unlessStandard
  · rw [SectionHelper.render, SectionHelper.withDelimiters, perform, given_eq_givenFrom,
      Delimiters.unlessStandard_idem]
  · rw [settled, if_pos htag, given_eq_givenFrom, hsame, hs,
      Engine.startingDelimiters_unlessStandard.2 hhonours]
  · rw [settled, htag, if_neg Bool.false_ne_true]
  · rw [hasTag, hopening] at htag
    exact htag

end Render

namespace Engine

open Compile (sectionBody sectionKey sectionSource)
open Token (EverywhereIn)

variable {e : Engine} {asked : Option Delimiters}

/-- **Sections work in the delimiters in force at their tags**, if the digests of
the sections of the template do not collide. -/
theorem works_in_delimiters (he : e.HasAccepted) (hasked : AcceptedIfAny asked)
    {name source : String} {ts : List Token} {tree : Tree} {p : Program}
    (hfree : Set.InjOn e.digest (tree.sectionTexts source))
    (hscan : Token.scan (e.startingDelimiters asked) source = .ok ts)
    (htree : Tree.ofTokens e.pragmas ts = .ok tree)
    (hcompile : e.compile name source asked = .ok p) :
    EverywhereIn (fun t => t.kind = .sectionTag →
      (∃ d, Scan.InForce (e.startingDelimiters asked) source t d) ∧
      ∀ d s, Scan.InForce (e.startingDelimiters asked) source t d →
        Entries.get? p.sections (sectionKey e.digest source t) = some s →
          s.source = sectionSource source t ∧ Render.WorksIn e s d) tree.nodes ∧
    ∀ key s, Entries.get? p.sections key = some s →
      ∃ t d, t.kind = .sectionTag ∧ key = sectionKey e.digest source t ∧
        Scan.InForce (e.startingDelimiters asked) source t d ∧
        s.source = sectionSource source t ∧ Render.WorksIn e s d := by
  have hstart := he.startingDelimiters hasked
  have hsections : ∀ t, tree.HasSection t →
      ∃ d, Tree.StandsAlone (e.startingDelimiters asked) e.pragmas source tree.pragmas t d :=
    fun t ht => ht.within.of_everywhereIn (Tree.sections_ofTokens hstart hscan htree) ht.kind
  rw [compile_of_parsed hscan htree] at hcompile
  -- what is filed for a section tag has its text and its delimiters
  have hworks : ∀ t d body, Tree.StandsAlone (e.startingDelimiters asked) e.pragmas source
      tree.pragmas t d → Render.WorksIn e (sectionBody source t body) d := by
    intro t d body halone
    refine Render.worksIn_of_delimiters he halone.accepted ?_
    rw [sectionBody, halone.delimiters]
  refine ⟨.of_within tree.nodes fun t hwithin hkind => ?_, fun key s hs => ?_⟩
  · have ht : tree.HasSection t := ⟨hwithin, hkind⟩
    obtain ⟨d, halone⟩ := hsections t ht
    refine ⟨⟨d, halone.inForce⟩, fun d₁ s hforce hs => ?_⟩
    cases hforce.unique hstart halone.inForce
    obtain ⟨body, hfiled⟩ := Program.exists_get?_of_section
      (Program.keyed_of_parsed hstart hscan htree hfree) hcompile ht
    cases hs.symm.trans hfiled
    exact ⟨rfl, hworks t d body halone⟩
  · obtain ⟨t, hstems⟩ := (Program.stems_of_compile hcompile).2 key s hs
    obtain ⟨d, halone⟩ := hsections t hstems.tag
    refine ⟨t, d, hstems.tag.kind, hstems.key, halone.inForce, ?_, ?_⟩ <;> rw [hstems.filed]
    · rfl
    · exact hworks t d s.body halone

/-- Two sections in delimiters of their own, one inside the other, under an
engine with others. -/
theorem works_in_delimiters_of_own :
    let d : Delimiters := ⟨"<%", "%>"⟩
    let e := { standard .inert Sha256.ofText 0 with delimiters := some ⟨"[[", "]]"⟩ }
    let source := "[[=<% %>=]]<%#a%>x<%#b%>y<%/b%><%/a%>"
    e.Honours d ∧ ∃ ts tree p, Token.scan (e.startingDelimiters none) source = .ok ts ∧
      Tree.ofTokens e.pragmas ts = .ok tree ∧ Set.InjOn e.digest (tree.sectionTexts source) ∧
      e.compile "" source none = .ok p ∧
      p.sections.map (fun s => (s.2.source, s.2.delimiters)) =
        [("y", some d), ("x<%#b%>y<%/b%>", some d)] ∧
      ∀ key s, Entries.get? p.sections key = some s → Render.WorksIn e s d := by
  intro d e source
  have he : e.HasAccepted := by
    rintro _ ⟨⟩
    exact ⟨"[[ ]]", by decide⟩
  have hfiled : ((Token.scan (e.startingDelimiters none) source).toOption.bind fun ts =>
      (Tree.ofTokens e.pragmas ts).toOption.bind fun tree =>
        (Program.compile Sha256.ofText e.pragmas e.compileSettings "" source
          tree.nodes).toOption.map fun p =>
            (p.sections.map fun s => (s.2.source, s.2.delimiters), tree.visitedTexts source)) =
      some ([("y", some d), ("x<%#b%>y<%/b%>", some d)],
        [Compile.sectionText (some d) "x<%#b%>y<%/b%>", Compile.sectionText (some d) "y"]) := by
    rw [Sha256.ofText_eq_numbers]
    decide +kernel
  obtain ⟨ts, hscan, hfiled⟩ := exists_of_toOption_bind hfiled
  obtain ⟨tree, htree, hfiled⟩ := exists_of_toOption_bind hfiled
  obtain ⟨p, hp, hfiled⟩ := exists_of_toOption_map hfiled
  obtain ⟨hsections, htexts⟩ := Prod.mk.inj hfiled
  have hcompile : e.compile "" source none = .ok p :=
    (compile_of_parsed hscan htree "").trans hp
  have hfree : Set.InjOn e.digest (tree.sectionTexts source) := by
    refine Tree.injOn_sectionTexts hscan htree ?_
    change ((tree.visitedTexts source).dedup.map Sha256.ofText).Nodup
    rw [htexts, Sha256.ofText_eq_numbers]
    decide +kernel
  refine ⟨fun h => absurd h (by decide), ts, tree, p, hscan, htree, hfree, hcompile, hsections,
    fun key s hs => ?_⟩
  obtain ⟨t, d', -, -, -, -, hworks⟩ :=
    (works_in_delimiters he .none hfree hscan htree hcompile).2 key s hs
  have hlisted := List.mem_map_of_mem (f := fun s => (s.2.source, s.2.delimiters))
    (Entries.mem_of_get? hs)
  have hdelimiters : s.delimiters = some d := by
    rw [hsections] at hlisted
    simp only [List.mem_cons, List.not_mem_nil, or_false, Prod.mk.injEq, ← or_and_right] at hlisted
    exact hlisted.2
  have hd : d' = d := Delimiters.eq_of_unlessStandard (hworks.kept.symm.trans hdelimiters)
  rw [← hd]
  exact hworks

/-- A template that goes back to standard delimiters. -/
def backToStandard : String :=
  "<%=\x7b\x7b \x7d\x7d=%>\x7b\x7b#a\x7d\x7d\x7b\x7bb\x7d\x7d\x7b\x7b/a\x7d\x7d"

/-- Its section tag. -/
def backToStandardTag : Token :=
  { Token.ofTag .sectionTag "a" 0 with delimiters? := some .standard, offset? := some 17 }

theorem inForce_backToStandard :
    Scan.InForce ⟨"<%", "%>"⟩ backToStandard backToStandardTag .standard := by
  have hset : Scan.readToken ⟨0, 0, ⟨"<%", "%>"⟩⟩ backToStandard.toList =
      .ok ⟨.bare .delimiterTag 0, ⟨11, 0, .standard⟩,
        "\x7b\x7b#a\x7d\x7d\x7b\x7bb\x7d\x7d\x7b\x7b/a\x7d\x7d".toList⟩ := by cbv
  have hopen : Scan.readToken ⟨11, 0, .standard⟩
      "\x7b\x7b#a\x7d\x7d\x7b\x7bb\x7d\x7d\x7b\x7b/a\x7d\x7d".toList =
      .ok ⟨backToStandardTag, ⟨17, 0, .standard⟩,
        "\x7b\x7bb\x7d\x7d\x7b\x7b/a\x7d\x7d".toList⟩ := by cbv
  exact ⟨_, _, _, _, .single (by decide) hset, hopen, rfl, rfl, rfl⟩

/-- **Standard delimiters are not honoured** by an engine that starts with
others: a text that was rendered in a section with standard delimiters is
not read in them. -/
theorem standard_delimiters_forgotten :
    let e := { standard .renderer id 0 with delimiters := some ⟨"<%", "%>"⟩ }
    let body := "\x7b\x7bb\x7d\x7d"
    let data := Value.map [("a", .lambda 0), ("b", .str "x")]
    let store := Store.ofFiles (.empty "" [])
    (e.compile "" backToStandard none).toOption.map
        (fun p => p.sections.map fun s => (s.2.source, s.2.delimiters)) = some [(body, none)] ∧
      Scan.InForce (e.startingDelimiters none) backToStandard backToStandardTag .standard ∧
      (outcome (e.render 4 backToStandard data) store).1.toOption = some body ∧
      (outcome (Render.givenFrom e (Render.code e 3) .standard body)
        ⟨e.contextFor data, store⟩).1.toOption = some "x" := by
  refine ⟨?_, inForce_backToStandard, ?_, ?_⟩ <;> decide +kernel

end Engine

end Mustache
