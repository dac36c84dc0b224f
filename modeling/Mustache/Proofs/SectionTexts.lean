import Mathlib
import Mustache.Proofs.Caching
import Mustache.Proofs.Compiles
import Mustache.Proofs.DataAsText
import Mustache.Proofs.Sections
/-!
# Mustache — rendering the text of a section again

A procedure in a section is given the text of the section, and may have it
rendered with the delimiters of the section. These are kept as none where
they are standard, and an engine that is asked for none starts with its
own. So they are in force again if they are not standard, or if the engine
starts with standard ones (`startingDelimiters_unlessStandard`).

Then the text compiles whatever it is called, and asking the engine for its
program fails only if the cache does (`section_compiles_again`). This goes
for sections at any depth. It is asked that the text has the pragmas of its
template. An engine has its pragmas at every turn, but a pragma tag holds
for the template it stands in: a text that was taken out of a template with
blocks is no template without them (`compile_lentBlock_fails`).
-/

namespace Mustache

/-- The error is one of the cache. -/
def Cache.FailsWith (cache : Cache) (err : Error) : Prop :=
  ∃ key s, (outcome (cache.load key) s).1 = .error err ∨
    ∃ stored, (outcome (cache.save key stored) s).1 = .error err

namespace Engine

open Compile (sectionSource)
open Delimiters (unlessStandard)
open Token (EverywhereIn)
open Mustache.Tree (StandsAlone)

variable {e : Engine} {text : String} {asked : Option Delimiters} {cache : Cache} {s : Store}

/-- The delimiters of a section are in force again when they are asked for:
they are not standard, or the engine starts with standard ones. -/
def Honours (e : Engine) (d : Delimiters) : Prop :=
  d = .standard → e.startingDelimiters none = .standard

/-- **Delimiters that are kept as none where they are standard** are those
that a text starts with again exactly if the engine honours them. -/
theorem startingDelimiters_unlessStandard {d : Delimiters} :
    e.startingDelimiters (unlessStandard (some d)) = d ↔ e.Honours d := by
  unfold Honours
  by_cases hd : d = .standard
  · have hnone : unlessStandard (some d) = none := by
      rw [hd]
      rfl
    rw [hnone, hd]
    exact ⟨fun h _ => h, fun h => h rfl⟩
  · rw [Delimiters.unlessStandard_of_ne hd]
    exact ⟨fun _ h => absurd h hd, fun _ => rfl⟩

/-- What compiles is fetched, unless the cache fails. -/
theorem failsWith_of_fetch {name : String} {p : Program} {err : Error}
    (hcompile : e.compile name text asked = .ok p)
    (h : (outcome (e.fetch (.text text) asked name cache) s).1 = .error err) :
    cache.FailsWith err := by
  unfold fetch at h
  rw [outcome_bind] at h
  rcases hload : outcome (cache.load name) s with ⟨err' | found, s'⟩
  · rw [hload, andThen_error] at h
    cases h
    exact ⟨name, s, .inl (congrArg Prod.fst hload)⟩
  · rw [hload, andThen_ok] at h
    split at h
    · cases h
    · unfold compileAndSave loadedText at h
      rw [outcome_bind, outcome_pure, andThen_ok, outcome_bind, hcompile, outcome_liftM, andThen_ok,
        outcome_bind] at h
      rcases hsave : outcome (cache.save name p.store) s' with ⟨err' | _, s''⟩
      · rw [hsave, andThen_error] at h
        cases h
        exact ⟨name, s', .inr ⟨p.store, congrArg Prod.fst hsave⟩⟩
      · rw [hsave, andThen_ok, outcome_pure] at h
        cases h

/-- **An engine has the program of a text that compiles**, unless the cache
fails. -/
theorem failsWith_of_program {err : Error}
    (hcompile : ∀ name, ∃ p, e.compile name text asked = .ok p)
    (h : (outcome (e.program (.text text) asked cache) s).1 = .error err) :
    cache.FailsWith err := by
  unfold program className OnStore.memo? at h
  simp only [outcome_bind, outcome_pure, outcome_get, andThen_ok] at h
  split at h
  · cases h
  · rw [outcome_bind] at h
    obtain ⟨p, hp⟩ := hcompile (e.classNameOf (e.textFingerprint text asked))
    rcases hfetch : outcome (e.fetch (.text text) asked
      (e.classNameOf (e.textFingerprint text asked)) cache) s with ⟨err' | found, s'⟩
    · rw [hfetch, andThen_error] at h
      cases h
      exact failsWith_of_fetch hp (congrArg Prod.fst hfetch)
    · rw [hfetch, andThen_ok] at h
      cases h

/-- A text is rendered again with these delimiters: it has tokens, and if
the delimiters are honoured and its own pragma tags leave in effect what the
parser had for the template, then it compiles, and only the cache can keep
the engine from its program. -/
def CompilesAgain (e : Engine) (set : PragmaSet) (text : String) (d : Delimiters) : Prop :=
  ∃ tokens tags, Token.scan d text = .ok tokens ∧
    Tree.ofTokens e.pragmas (tokens.filter fun t => t.kind = .pragma) = .ok tags ∧
    (e.Honours d → tags.pragmas.Covers set →
      (∀ name, ∃ p, e.compile name text (unlessStandard (some d)) = .ok p) ∧
      ∀ s err, (outcome (e.lambdaProgram text (unlessStandard (some d))) s).1 = .error err →
        e.lambdaCache.FailsWith err)

/-- A text that stands alone is rendered again. -/
theorem compilesAgain_of_standsAlone {start d : Delimiters} {source : String} {set : PragmaSet}
    {t : Token} (h : StandsAlone start e.pragmas source set t d) :
    e.CompilesAgain set (sectionSource source t) d := by
  obtain ⟨tokens, tags, hscan, htags, hparsed⟩ := h.parsed
  refine ⟨tokens, tags, hscan, htags, fun hhonours hset => ?_⟩
  obtain ⟨tree, htree⟩ := hparsed hset
  have hstart := startingDelimiters_unlessStandard.2 hhonours
  have hcompile (name : String) :
      ∃ p, e.compile name (sectionSource source t) (unlessStandard (some d)) = .ok p := by
    rw [compile_of_parsed (hstart.symm ▸ hscan) htree]
    exact Program.exists_compile hscan htree e.digest e.compileSettings
  refine ⟨hcompile, fun s err herr => ?_⟩
  unfold lambdaProgram at herr
  rw [Delimiters.unlessStandard_idem] at herr
  exact failsWith_of_program hcompile herr

/-- **The text of a section can be rendered again**, wherever the section
stands: from the delimiters in force at its tag it compiles, if they are
honoured and the text has the pragmas of its template. Procedures are given
such texts and delimiters and no others. -/
theorem section_compiles_again (he : e.HasAccepted) (hasked : AcceptedIfAny asked)
    {name source : String} {ts : List Token} {tree : Tree} {p : Program}
    (hscan : Token.scan (e.startingDelimiters asked) source = .ok ts)
    (htree : Tree.ofTokens e.pragmas ts = .ok tree)
    (hcompile : e.compile name source asked = .ok p) :
    EverywhereIn (fun t => t.kind = .sectionTag →
      ∃ d, Scan.InForce (e.startingDelimiters asked) source t d ∧ t.delimiters? = some d ∧
        e.CompilesAgain tree.pragmas (sectionSource source t) d) tree.nodes ∧
    ∀ key s, Entries.get? p.sections key = some s →
      ∃ d, s.delimiters = unlessStandard (some d) ∧ e.CompilesAgain tree.pragmas s.source d := by
  have hsections := Tree.sections_ofTokens (he.startingDelimiters hasked) hscan htree
  have hnodes := EverywhereIn.mono (Q := fun t => t.kind = .sectionTag →
      ∃ d, Scan.InForce (e.startingDelimiters asked) source t d ∧ t.delimiters? = some d ∧
        e.CompilesAgain tree.pragmas (sectionSource source t) d) (fun t ht hkind => by
    obtain ⟨d, halone⟩ := ht hkind
    exact ⟨d, halone.inForce, halone.delimiters, compilesAgain_of_standsAlone halone⟩)
    tree.nodes hsections
  refine ⟨hnodes, ?_⟩
  rw [compile_of_parsed hscan htree] at hcompile
  refine (Program.filed_compile hcompile (fun t body ht hkind => ?_) hnodes).2
  obtain ⟨d, -, hd, hagain⟩ := ht hkind
  refine ⟨d, ?_, hagain⟩
  rw [Compile.sectionBody, hd]

/-- A template of one section was scanned and parsed, and the section is on
file. -/
theorem exists_parsed_section {source text : String} {d : Option Delimiters}
    (h : (e.compile "" source none).toOption.map
      (fun p => p.sections.map fun s => (s.2.source, s.2.delimiters)) = some [(text, d)]) :
    ∃ ts tree p key s, Token.scan (e.startingDelimiters none) source = .ok ts ∧
      Tree.ofTokens e.pragmas ts = .ok tree ∧ e.compile "" source none = .ok p ∧
      Entries.get? p.sections key = some s ∧ s.source = text ∧ s.delimiters = d := by
  obtain ⟨p, hcompile, hsections⟩ := exists_of_toOption_map h
  obtain ⟨ts, hscan, htree⟩ := exists_of_bind_eq_ok hcompile
  obtain ⟨tree, htree, -⟩ := exists_of_bind_eq_ok htree
  obtain ⟨⟨key, s⟩, hone, hs⟩ := List.map_eq_singleton_iff.1 hsections
  refine ⟨ts, tree, p, key, s, hscan, htree, hcompile, ?_, congrArg Prod.fst hs,
    congrArg Prod.snd hs⟩
  rw [hone]
  exact if_pos rfl

/-- A section that brings its pragma along, in delimiters of its own. -/
theorem section_compiles_again_of_own_pragma :
    let e := standard .inert id 0
    let source := "\x7b\x7b=<% %>=\x7d\x7d<%#a%><%% BLOCKS %><%$b%>x<%/b%><%/a%>"
    let body := "<%% BLOCKS %><%$b%>x<%/b%>"
    let d : Delimiters := ⟨"<%", "%>"⟩
    (e.compile "" source none).toOption.map
        (fun p => p.sections.map fun s => (s.2.source, s.2.delimiters)) = some [(body, some d)] ∧
      ∀ name, ∃ p, e.compile name body (some d) = .ok p := by
  intro e source body d
  have he : e.HasAccepted := .none
  have hfiled : (e.compile "" source none).toOption.map
      (fun p => p.sections.map fun s => (s.2.source, s.2.delimiters)) = some [(body, some d)] := by
    decide +kernel
  -- the pragma is in effect for the template and for the text of the section
  have hset : ((Token.scan (e.startingDelimiters none) source).toOption.bind fun ts =>
      (Tree.ofTokens e.pragmas ts).toOption).map (·.pragmas.names) = some ["BLOCKS"] := by
    decide +kernel
  have hown : ((Token.scan d body).toOption.bind fun ts =>
      (Tree.ofTokens e.pragmas (ts.filter fun t => t.kind = .pragma)).toOption).map
        (·.pragmas.names) = some ["BLOCKS"] := by
    decide +kernel
  refine ⟨hfiled, ?_⟩
  obtain ⟨ts, tree, p, key, s, hscan, htree, hcompile, hget, hsource, hdelimiters⟩ :=
    exists_parsed_section hfiled
  rw [hscan] at hset
  change (Tree.ofTokens e.pragmas ts).toOption.map _ = _ at hset
  rw [htree] at hset
  obtain ⟨d', hd', hagain⟩ := (section_compiles_again he .none hscan htree hcompile).2 key s hget
  rw [hsource] at hagain
  obtain ⟨tokens, tags, htokens, htags, hcompiles⟩ := hagain
  have hd : d' = d := Delimiters.eq_of_unlessStandard (hd'.symm.trans hdelimiters)
  rw [hd] at htokens hcompiles
  rw [htokens] at hown
  change (Tree.ofTokens e.pragmas _).toOption.map _ = _ at hown
  rw [htags] at hown
  have hnames : tree.pragmas.names = ["BLOCKS"] := Option.some.inj hset
  have hnames' : tags.pragmas.names = ["BLOCKS"] := Option.some.inj hown
  have hcovers : tags.pragmas.Covers tree.pragmas := by
    unfold PragmaSet.Covers PragmaSet.has
    rw [hnames, hnames']
    exact fun _ _ h => h
  have hhonours : e.Honours d := fun h => absurd h (by decide)
  exact (hcompiles hhonours hcovers).1

end Engine

/-! ## Where the pragma stands elsewhere -/

/-- A host whose procedures have the text of their section rendered. -/
def Host.renderer : Host :=
  { Host.inert with
    callInSection := fun _ helper args =>
      helper.render (String.join (args.map (Value.text .inert))) fun result =>
        .done (result.map .str) }

namespace Engine

/-- A section with a block, under a pragma tag outside. -/
def lentBlocks : String :=
  "\x7b\x7b% BLOCKS \x7d\x7d\x7b\x7b#a\x7d\x7d\x7b\x7b$b\x7d\x7dx\x7b\x7b/b\x7d\x7d" ++
    "\x7b\x7b/a\x7d\x7d"

/-- The text of the section. -/
def lentBlock : String := "\x7b\x7b$b\x7d\x7dx\x7b\x7b/b\x7d\x7d"

/-- The run failed since a closing tag has no opening one. -/
def refusesClosing : Except Stop String → Bool
  | .error (.failed (.malformed .unexpectedClosing _)) => true
  | _ => false

/-- **Without the pragma of its template a text may not compile**, and a
procedure that has it rendered fails. -/
theorem compile_lentBlock_fails :
    let e := standard .renderer id 0
    let closing := { Token.ofTag .closingTag "b" 0 with
      delimiters? := some .standard, offset? := some 7 }
    (e.compile "" lentBlocks none).toOption.map
        (fun p => p.sections.map fun s => (s.2.source, s.2.delimiters)) =
      some [(lentBlock, none)] ∧
    e.compile "" lentBlock none = .error (.malformed .unexpectedClosing closing) ∧
    refusesClosing (outcome (e.render 3 lentBlocks (.map [("a", .lambda 0)]))
      (.ofFiles (.empty "" []))).1 = true := by
  refine ⟨?_, ?_, ?_⟩
  · decide +kernel
  · cbv
  · decide +kernel

end Engine

end Mustache
