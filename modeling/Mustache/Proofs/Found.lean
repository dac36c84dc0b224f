import Mustache.Proofs.Abreast
import Mustache.Proofs.Stocked
/-!
# Mustache — no key leads nowhere

Where a section or an override that is asked for is not filed, the renderer
writes nothing and goes on. `Render.codeOr` is the renderer with anything else
done there. It gives the same in every render of made programs
(`outcome_renderOr`): what is asked for is always filed, so nothing is dropped
without a word.

The program that is run need not be the one that is asked. An override is kept
on the stack with the program that has it, while the templates that are
extended are run. So the invariant is about the stack too: each override there
is filed in its own, made program (`Context.Bound`).
-/

namespace Mustache

namespace Render

/-! ## The renderer with something else done for what is missing -/

/-- What is done where a program has nothing under a key. -/
abbrev Fallback := Program → String → Render String

section

variable (missing : Fallback) (e : Engine) (again : Runner)

/-- `overriding`, with the fallback in place of nothing. -/
def overridingOr (block : BlockRef) : Render String :=
  match Entries.get? block.program.blocks block.key with
  | some body => again block.program body ""
  | none => missing block.program block.key

mutual

/-- `instrs`, with the fallback in place of nothing. -/
def instrsOr (p : Program) (indent : String) : List Instr → Render String
  | [] => return ""
  | i :: is => do
    let first ← instrOr p indent i
    let more ← instrsOr p indent is
    return first ++ more

/-- `instr`, with the fallback in place of nothing. -/
def instrOr (p : Program) (indent : String) : Instr → Render String
  | .enter lookup filters key => do
    let value ← applyFilters e p.strictCallables (← resolve e lookup) filters
    match Entries.get? p.sections key with
    | some s => sectionText e again p s value indent
    | none => missing p key
  | .inverted lookup filters body => do
    let value ← applyFilters e p.strictCallables (← resolve e lookup) filters
    if value.isEmpty then instrsOr p indent body else return ""
  | .block name default => do
    match (← get).context.override? name with
    | some block => overridingOr missing again block
    | none => instrsOr p indent default
  | .text value indented => instr e again p indent (.text value indented)
  | .interpolate lookup filters escape indented =>
    instr e again p indent (.interpolate lookup filters escape indented)
  | .insertPartial name captured => instr e again p indent (.insertPartial name captured)
  | .extend name overrides => instr e again p indent (.extend name overrides)

end

end

/-- `code`, with the fallback in place of nothing. -/
def codeOr (missing : Fallback) (e : Engine) : Nat → Runner
  | 0 => fun _ _ _ => throw .exhausted
  | depth + 1 => fun p is indent => instrsOr missing e (codeOr missing e depth) p indent is

section

variable {e : Engine} {again : Runner}

mutual

theorem instrsOr_nothing (p : Program) (indent : String) : ∀ is : List Instr,
    instrsOr (fun _ _ => return "") e again p indent is = instrs e again p indent is
  | [] => by rw [instrsOr, instrs]
  | i :: is => by rw [instrsOr, instrs, instrOr_nothing p indent i, instrsOr_nothing p indent is]

theorem instrOr_nothing (p : Program) (indent : String) : ∀ i : Instr,
    instrOr (fun _ _ => return "") e again p indent i = instr e again p indent i
  | .enter _ _ _ => by
    rewrite [instrOr, instr]
    rfl
  | .inverted _ _ body => by rw [instrOr, instr, instrsOr_nothing p indent body]
  | .block _ default => by
    rewrite [instrOr, instr, instrsOr_nothing p indent default]
    rfl
  | .text _ _ | .interpolate _ _ _ _ | .insertPartial _ _ | .extend _ _ => by rw [instrOr]

end

/-- The renderer itself does nothing there. -/
theorem codeOr_nothing (e : Engine) (depth : Nat) :
    codeOr (fun _ _ => return "") e depth = code e depth := by
  induction depth with
  | zero => rfl
  | succ depth ih =>
    funext p is indent
    rw [codeOr, code, ih]
    exact instrsOr_nothing p indent is

end

end Render

/-! ## The invariant -/

open Instr (ClosedIn)

/-- An override is filed in its program, and an engine has made that. -/
def BlockRef.Bound (block : BlockRef) : Prop :=
  block.program.Made ∧ Entries.has block.program.blocks block.key = true

/-- The overrides on the stack are filed. -/
def Context.Bound (c : Context) : Prop :=
  ∀ table ∈ c.overrides, ∀ name block, Entries.get? table name = some block → block.Bound

namespace Context.Bound

variable {c : Context}

theorem pushOverrides (h : c.Bound) {table : Entries BlockRef}
    (htable : ∀ name block, Entries.get? table name = some block → block.Bound) :
    (c.pushOverrides table).Bound :=
  List.forall_mem_cons.2 ⟨htable, h⟩

theorem popOverrides (h : c.Bound) : c.popOverrides.Bound :=
  fun table htable => h table (List.mem_of_mem_tail htable)

/-- The override of a block is filed. -/
theorem override? (h : c.Bound) {name : String} {block : BlockRef}
    (hfound : c.override? name = some block) : block.Bound := by
  obtain ⟨table, htable, hget⟩ := List.exists_of_findSome?_eq_some hfound
  exact h table (List.mem_reverse.1 htable) name block hget

end Context.Bound

/-- The overrides of a parent tag are filed in the program that has the tag. -/
theorem Render.bound_overrideTable {p : Program} (hp : p.Made) {os : List (String × String)}
    (hos : ∀ o ∈ os, Entries.has p.blocks o.2 = true) {name : String} {block : BlockRef}
    (h : Entries.get? (overrideTable p os) name = some block) : block.Bound := by
  obtain ⟨o, ho, rfl⟩ : ∃ o ∈ os, block = ⟨p, o.2⟩ := by
    have hmem := Entries.mem_ofPairs (Entries.mem_of_get? h)
    obtain ⟨o, ho, heq⟩ := List.mem_map.1 hmem
    exact ⟨o, ho, (congrArg Prod.snd heq).symm⟩
  exact ⟨hp, hos o ho⟩

/-- A render stands well: the overrides on its stack are filed, and its store is
stocked with made programs. -/
structure Render.State.Sound (caches : Cache → Prop) (s : Render.State) : Prop where
  context : s.context.Bound
  store : s.store.Stocked caches

namespace Render

/-! ## Side by side -/

section Functions

variable {caches : Cache → Prop} {missing : Fallback} {e : Engine} {again again' : Runner}

/-- Two ways to run instructions from another place give the same for closed
code of made programs. -/
def RunnersAgree (caches : Cache → Prop) (again again' : Runner) : Prop :=
  ∀ {p : Program} {is : List Instr} (indent : String), p.Made →
    ClosedIn p.sections p.blocks is →
    Matches (Both (State.Sound caches)) Eq (again p is indent) (again' p is indent)

theorem matches_resolveSound (lookup : Lookup) :
    Matches (Both (State.Sound caches)) Eq (resolve e lookup) (resolve e lookup) := by
  have hkeeps : Keeps id (resolve e lookup) :=
    .bind .get fun _ _ => by rw [outcome_ofExcept]
  exact matches_of_keeps hkeeps fun s s' (heq : s' = s) hs => heq ▸ hs

theorem matches_onStoreSound {α : Type} {V : α → α → Prop} {work : OnStore α}
    (h : Matches (Both (Store.Stocked caches)) V work work) :
    Matches (Both (State.Sound caches)) V (onStore work) (onStore work) := by
  refine matches_onStore_of ?_ ?_ h
  · rintro _ s ⟨rfl, hs⟩
    exact ⟨rfl, hs.store⟩
  · rintro _ s _ store ⟨rfl, hs⟩ ⟨rfl, hstore⟩
    exact ⟨rfl, hs.context, hstore⟩

theorem matches_betweenSound {enter leave : Context → Context} {run run' : Render String}
    (henter : ∀ c : Context, c.Bound → (enter c).Bound)
    (hleave : ∀ c : Context, c.Bound → (leave c).Bound)
    (h : Matches (Both (State.Sound caches)) Eq run run') :
    Matches (Both (State.Sound caches)) Eq (between enter leave run)
      (between enter leave run') := by
  refine matches_between_of ?_ ?_ h
  · rintro _ s ⟨rfl, hs⟩
    exact ⟨rfl, henter _ hs.context, hs.store⟩
  · rintro _ s ⟨rfl, hs⟩
    exact ⟨rfl, hleave _ hs.context, hs.store⟩

variable (hcache : caches e.cache) (hagain : RunnersAgree caches again again')

include hagain

theorem matches_wholeMade {p : Program} (hp : p.Made) (indent : String) :
    Matches (Both (State.Sound caches)) Eq (whole again p indent) (whole again' p indent) :=
  hagain indent hp hp.closed.body

/-- **An override is found**, in its own program. -/
theorem matches_overridingOr {block : BlockRef} (hblock : block.Bound) :
    Matches (Both (State.Sound caches)) Eq (overriding again block)
      (overridingOr missing again' block) := by
  obtain ⟨hp, hfiled⟩ := hblock
  obtain ⟨body, hbody⟩ := Option.isSome_iff_exists.1 hfiled
  unfold overriding overridingOr
  rw [hbody]
  exact hagain "" hp (hp.closed.blocks _ (Entries.mem_of_get? hbody))

include hcache

/-- The two renders go abreast. -/
theorem abreast_or : Abreast (Both (State.Sound caches)) (fun _ => True) e e again again' where
  host := rfl
  none := trivial
  actions _ _ _ _ := .of_forall (fun _ => trivial) _
  resolve := matches_resolveSound
  given text asked _ := by
    refine Matches.bind (matches_onStoreSound (Engine.matches_lambdaMade hcache text asked)) ?_
    rintro _ p ⟨rfl, hp⟩
    exact matches_wholeMade hagain hp ""
  inFrame value _ _ hrun := matches_betweenSound (fun _ hc => hc) (fun _ hc => hc) hrun

theorem matches_parentOr {p : Program} (hp : p.Made) {os : List (String × String)}
    (hos : ∀ o ∈ os, Entries.has p.blocks o.2 = true) (name : TemplateName) (indent : String) :
    Matches (Both (State.Sound caches)) Eq (parent e again p name os indent)
      (parent e again' p name os indent) := by
  unfold parent
  refine Matches.bind_same ((abreast_or hcache hagain).templateName _ name) fun name => ?_
  refine Matches.bind (matches_onStoreSound (Engine.matches_partialMade hcache name)) ?_
  rintro _ found ⟨rfl, hfound⟩
  cases found with
  | none => exact Matches.pure rfl
  | some parent =>
    have hparent := matches_wholeMade hagain (hfound parent rfl) indent
    dsimp only
    split
    · exact hparent
    · exact matches_betweenSound
        (fun _ hc => hc.pushOverrides fun _ _ hget => bound_overrideTable hp hos hget)
        (fun _ hc => hc.popOverrides) hparent

end Functions

mutual

theorem matches_instrsOr {caches : Cache → Prop} (missing : Fallback) {e : Engine}
    {again again' : Runner} (hcache : caches e.cache) (hagain : RunnersAgree caches again again')
    {p : Program} (hp : p.Made) (indent : String) :
    ∀ is : List Instr, ClosedIn p.sections p.blocks is →
      Matches (Both (State.Sound caches)) Eq (instrs e again p indent is)
        (instrsOr missing e again' p indent is)
  | [], _ => by
    rw [instrs, instrsOr]
    exact Matches.pure rfl
  | i :: is, h => by
    have htail := h.tail
    rw [instrs, instrsOr]
    exact Matches.append (matches_instrOr missing hcache hagain hp indent i is h)
      (matches_instrsOr missing hcache hagain hp indent is htail)

theorem matches_instrOr {caches : Cache → Prop} (missing : Fallback) {e : Engine}
    {again again' : Runner} (hcache : caches e.cache) (hagain : RunnersAgree caches again again')
    {p : Program} (hp : p.Made) (indent : String) :
    ∀ (i : Instr) (is : List Instr), ClosedIn p.sections p.blocks (i :: is) →
      Matches (Both (State.Sound caches)) Eq (instr e again p indent i)
        (instrOr missing e again' p indent i)
  | .text value indented, _, _ => by
    rw [instrOr, instr, instr]
    exact Matches.pure rfl
  | .interpolate lookup filters escape indented, _, _ => by
    have habreast := abreast_or hcache hagain
    rw [instrOr, instr, instr]
    refine Matches.bind_same (habreast.resolve lookup) fun value => ?_
    refine Matches.bind_same (habreast.settle _ value) fun value => ?_
    refine Matches.bind_same (habreast.applyFilters _ value filters) fun value => ?_
    exact Matches.pure rfl
  | .enter lookup filters key, _, h => by
    have habreast := abreast_or hcache hagain
    -- the key is on file, so the fallback is not asked
    obtain ⟨hfiled, -⟩ := ClosedIn.cons_enter_iff.1 h
    obtain ⟨s, hs⟩ := Option.isSome_iff_exists.1 hfiled
    have hbody := hagain indent hp (hp.closed.sections _ (Entries.mem_of_get? hs))
    rw [instr, instrOr, hs]
    refine Matches.bind_same (habreast.resolve lookup) fun value => ?_
    refine Matches.bind_same (habreast.applyFilters _ value filters) fun value => ?_
    exact habreast.sectionText rfl rfl rfl trivial hbody value
  | .inverted lookup filters body, _, h => by
    have habreast := abreast_or hcache hagain
    obtain ⟨hbody, -⟩ := ClosedIn.cons_inverted_iff.1 h
    rw [instr, instrOr]
    refine Matches.bind_same (habreast.resolve lookup) fun value => ?_
    refine Matches.bind_same (habreast.applyFilters _ value filters) fun value => ?_
    split
    · exact matches_instrsOr missing hcache hagain hp indent body hbody
    · exact Matches.pure rfl
  | .insertPartial name captured, _, _ => by
    rw [instrOr, instr, instr]
    refine Matches.bind_same ((abreast_or hcache hagain).templateName _ name) fun name => ?_
    refine Matches.bind (matches_onStoreSound (Engine.matches_partialMade hcache name)) ?_
    rintro _ found ⟨rfl, hfound⟩
    cases found with
    | none => exact Matches.pure rfl
    | some inner => exact matches_wholeMade hagain (hfound inner rfl) _
  | .extend name os, _, h => by
    obtain ⟨hos, -⟩ := ClosedIn.cons_extend_iff.1 h
    rw [instrOr, instr, instr]
    exact matches_parentOr hcache hagain hp hos name indent
  | .block name default, _, h => by
    obtain ⟨hdefault, -⟩ := ClosedIn.cons_block_iff.1 h
    have hbody := matches_instrsOr missing hcache hagain hp indent default hdefault
    rw [instr, instrOr]
    rintro _ s ⟨rfl, hs⟩
    rw [outcome_bind, outcome_bind, outcome_get, andThen_ok, andThen_ok]
    cases hfound : s.context.override? name with
    | none => exact hbody s s ⟨rfl, hs⟩
    | some block =>
      exact matches_overridingOr hagain (hs.context.override? hfound) s s ⟨rfl, hs⟩

end

/-- **Closed code finds what it asks for**, however deep places nest. -/
theorem runnersAgree_code {caches : Cache → Prop} {e : Engine} (hcache : caches e.cache)
    (missing : Fallback) (depth : Nat) :
    RunnersAgree caches (code e depth) (codeOr missing e depth) := by
  induction depth with
  | zero => exact fun _ _ _ => Matches.throw _
  | succ depth ih => exact fun indent hp his => matches_instrsOr missing hcache ih hp indent _ his

end Render

/-! ## Rendering -/

namespace Engine

/-- `runProgram`, with something else done where a program has nothing under a
key. -/
def runProgramOr (missing : Render.Fallback) (e : Engine) (depth : Nat) (p : Program)
    (data : Value) : ExceptT Stop (StateM Store) String := fun store =>
  let (result, s) :=
    (Render.codeOr missing e depth p p.body "").run.run ⟨e.contextFor data, store⟩
  (result, s.store)

/-- `render`, likewise. -/
def renderOr (missing : Render.Fallback) (e : Engine) (depth : Nat) (name : String)
    (data : Value) : ExceptT Stop (StateM Store) String := do
  let p ← working (e.template name)
  e.runProgramOr missing depth p data

/-- `renderDatum`, likewise. -/
def renderDatumOr (missing : Render.Fallback) (e : Engine) (depth : Nat) (name : String)
    (data : Datum) : ExceptT Stop (StateM Store) String := do
  let p ← working (e.template name)
  let value ← working (liftM data.toValue)
  e.runProgramOr missing depth p value

section

variable {caches : Cache → Prop} {e : Engine} (hcache : caches e.cache)

include hcache

/-- Before a program is run, no overrides are on the stack. -/
theorem matches_runProgramOr {p : Program} (hp : p.Made) (missing : Render.Fallback) (depth : Nat)
    (data : Value) :
    Matches (Both (Store.Stocked caches)) Eq (e.runProgram depth p data)
      (e.runProgramOr missing depth p data) := by
  have hbound : (e.contextFor data).Bound := by
    rw [Context.Bound, overrides_contextFor]
    exact nofun
  rintro _ s ⟨rfl, hs⟩
  have hrun := Render.runnersAgree_code hcache missing depth "" hp hp.closed.body
  obtain ⟨hresult, heq, hsound⟩ := hrun ⟨e.contextFor data, s⟩ ⟨e.contextFor data, s⟩
    ⟨rfl, hbound, hs⟩
  exact ⟨hresult, congrArg Render.State.store heq, hsound.store⟩

/-- **Every render finds what it asks for.** -/
theorem matches_renderOr (missing : Render.Fallback) (depth : Nat) (name : String)
    (data : Value) :
    Matches (Both (Store.Stocked caches)) Eq (e.render depth name data)
      (e.renderOr missing depth name data) := by
  refine Matches.bind (matches_working (matches_templateMade hcache name)) ?_
  rintro _ p ⟨rfl, hp⟩
  exact matches_runProgramOr hcache hp missing depth data

theorem matches_renderDatumOr (missing : Render.Fallback) (depth : Nat) (name : String)
    (data : Datum) :
    Matches (Both (Store.Stocked caches)) Eq (e.renderDatum depth name data)
      (e.renderDatumOr missing depth name data) := by
  have hvalue : Store.Still (liftM data.toValue : OnStore Value) := .ofExcept data.toValue
  refine Matches.bind (matches_working (matches_templateMade hcache name)) ?_
  rintro _ p ⟨rfl, hp⟩
  refine Matches.bind_same (matches_working (matches_of_still hvalue)) fun value => ?_
  exact matches_runProgramOr hcache hp missing depth value

end

end Engine

/-- **Compiling is total and closed, and no render misses anything.** A template
that scans and parses compiles, and its program has all it mentions: each key of
a section is one of its sections, and each key of an override one of its
overrides. So if engines have made the programs that are at hand and in caches,
a render does the same whatever is done in place of a section or an override
that is not found, and it leaves a store of which that holds again. -/
theorem Program.closed_and_found {delimiters : Delimiters} {source : String}
    {pragmas : List Pragma} {ts : List Token} {tree : Tree}
    (hscan : Token.scan delimiters source = .ok ts) (htree : Tree.ofTokens pragmas ts = .ok tree) :
    (∀ digest defaults settings name, ∃ p,
      compile digest defaults settings name source tree.nodes = .ok p ∧ p.Closed) ∧
    ∀ (caches : Cache → Prop) (e : Engine) (s : Store), caches e.cache → s.Stocked caches →
      ∀ (missing : Render.Fallback) (depth : Nat) (name : String),
        (∀ data : Value,
          outcome (e.renderOr missing depth name data) s = outcome (e.render depth name data) s ∧
          (outcome (e.render depth name data) s).2.Stocked caches) ∧
        ∀ data : Datum,
          outcome (e.renderDatumOr missing depth name data) s =
            outcome (e.renderDatum depth name data) s ∧
          (outcome (e.renderDatum depth name data) s).2.Stocked caches := by
  refine ⟨fun digest defaults settings name => exists_closed hscan htree digest settings, ?_⟩
  intro caches e s hcache hs missing depth name
  exact ⟨fun data => (Engine.matches_renderOr hcache missing depth name data).outcome_eq hs,
    fun data => (Engine.matches_renderDatumOr hcache missing depth name data).outcome_eq hs⟩

/-! ### A section inside an override -/

section OverrideWithSection

/-- A template that extends another one, with a section for its block. -/
def extendingPage : String :=
  "\x7b\x7b<frame\x7d\x7d\x7b\x7b$c\x7d\x7d\x7b\x7b#d\x7d\x7d\x7b\x7b.\x7d\x7d" ++
    "\x7b\x7b/d\x7d\x7d\x7b\x7b/c\x7d\x7d\x7b\x7b/frame\x7d\x7d"

/-- An engine with both templates. -/
def extender : Engine :=
  { (EngineOptions.standard .inert id).toEngineSettings with
    loader := .fixed [("frame", "<\x7b\x7b$c\x7d\x7dnone\x7b\x7b/c\x7d\x7d>"),
      ("page", extendingPage)],
    delimiters := none, pragmas := [.blocks], memo := 0 }

theorem stocked_ofFiles (files : FileTree) : (Store.ofFiles files).Stocked (· = .disabled) where
  memos := by
    rintro ref table htable
    cases htable
  caches := by
    rintro _ rfl
    exact trivial

/-- The section of the override is run while the other template is. -/
theorem Program.closed_and_found_of_override :
    let data := Value.map [("d", .list [.str "x", .str "y"])]
    let store := Store.ofFiles (.empty "" [])
    (∃ ts tree, Token.scan .standard extendingPage = .ok ts ∧
      Tree.ofTokens [.blocks] ts = .ok tree ∧
      ∃ p, compile id [.blocks] extender.compileSettings "page" extendingPage tree.nodes = .ok p ∧
        p.Closed) ∧
    store.Stocked (· = .disabled) ∧
    ∀ missing : Render.Fallback,
      (outcome (extender.renderOr missing 5 "page" data) store).1.toOption = some "<xy>" := by
  intro data store
  have hparsed : ((Token.scan .standard extendingPage).toOption.bind fun ts =>
      (Tree.ofTokens [.blocks] ts).toOption).isSome = true := by decide +kernel
  obtain ⟨tree, hparsed⟩ := Option.isSome_iff_exists.1 hparsed
  obtain ⟨ts, hscan, htree⟩ := exists_of_toOption_bind hparsed
  have htree := eq_ok_of_toOption htree
  obtain ⟨hclosed, hfound⟩ := closed_and_found hscan htree
  have hstocked : store.Stocked (· = .disabled) := stocked_ofFiles _
  have hrender : (outcome (extender.render 5 "page" data) store).1.toOption = some "<xy>" := by
    decide +kernel
  refine ⟨⟨ts, tree, hscan, htree, hclosed _ _ _ _⟩, hstocked, fun missing => ?_⟩
  obtain ⟨hvalue, -⟩ := hfound (· = .disabled) extender store rfl hstocked missing 5 "page"
  rw [(hvalue data).1]
  exact hrender

end OverrideWithSection

end Mustache
