import Mustache.Proofs.Caching
import Mustache.Proofs.Linked
/-!
# Mustache — a shared cache is invisible

Any number of engines work on one store, with caches in memory that they
share. Beside this run stands another one, in which every engine is
without a cache and the store without memos, so that each template is
compiled when it is asked for (`Engine.outcome_program_bare`). The two runs
give the same results, call after call, whether these are programs, texts
or errors (`answers_shared`).

What is asked of the engines is that they agree on the digest, that their
caches are in the store, that their loaders hand out text, and that
delimiters are always such as a text of two words names.
-/

namespace Mustache

/-! ## Loaders that hand out text -/

/-- Whatever the loader gives is there as text. -/
inductive Loader.GivesText : Loader → Prop
  | verbatim : GivesText .verbatim
  | table (ref : Nat) : GivesText (.table ref)
  | fixed (templates : Entries String) : GivesText (.fixed templates)
  | folder (place : TemplateFolder) : GivesText (.folder place)
  | cascade {loaders : List Loader} :
      (∀ loader ∈ loaders, GivesText loader) → GivesText (.cascade loaders)
  | given {load : String → Except Error Loaded} :
      (∀ name loaded, load name = .ok loaded → loaded.IsText) → GivesText (.given load)

/-- A sound store, and what is left of it without memos and caches. -/
def Store.Beside (digest : String → String) (s t : Store) : Prop := s.Sound digest ∧ t = s.bare

/-- The same template, as text. -/
def Loaded.SameText (loaded loaded' : Loaded) : Prop := loaded' = loaded ∧ loaded.IsText

section Loading

variable {digest : String → String} {α : Type}

/-- Work that reads the files and tables of a store and changes nothing. -/
theorem matches_read {V : α → α → Prop} {work : OnStore α} (f : Store → Except Error α)
    (h : ∀ s, outcome work s = (f s, s)) (hbare : ∀ s : Store, f s.bare = f s)
    (hV : ∀ s : Store, s.Sound digest → ∀ a, f s = .ok a → V a a) :
    Matches (Store.Beside digest) V work work := by
  rintro s _ ⟨hs, rfl⟩
  rw [h, h, hbare]
  refine ⟨?_, hs, rfl⟩
  cases hresult : f s with
  | error e => exact .error e
  | ok a => exact .ok (hV s hs a hresult)

theorem matches_table (ref : Nat) :
    Matches (Store.Beside digest) Eq (OnStore.table ref) (OnStore.table ref) :=
  matches_read (fun s => .ok ((s.tables.get? ref).getD [])) (fun _ => rfl) (fun _ => rfl)
    fun _ _ _ _ => rfl

theorem matches_inTable (templates : Entries String) (name : String) :
    Matches (Store.Beside digest) Loaded.SameText (Loader.inTable templates name)
      (Loader.inTable templates name) := by
  unfold Loader.inTable
  split
  · next text _ => exact Matches.pure ⟨rfl, text, rfl⟩
  · exact Matches.throw _

theorem matches_readText (path : String) :
    Matches (Store.Beside digest) Eq (FileSource.readText path) (FileSource.readText path) := by
  refine matches_read
    (fun s => (s.files.readText path).mapError fun fault => .runtime (.readSource path fault))
    ?_ (fun _ => rfl) fun _ _ _ _ => rfl
  intro s
  unfold FileSource.readText
  rw [outcome_bind, outcome_get, andThen_ok]
  cases s.files.readText path <;> rfl

/-! ### Folders -/

theorem matches_reading? (ref : Nat) (name : String) :
    Matches (Store.Beside digest) (Option.Rel Loaded.SameText) (OnStore.reading? ref name)
      (OnStore.reading? ref name) := by
  refine matches_read (fun s => .ok (Entries.get? ((s.readings.get? ref).getD []) name))
    (fun _ => rfl) (fun _ => rfl) ?_
  intro s hs found hfound
  cases hfound
  cases hread : Entries.get? ((s.readings.get? ref).getD []) name with
  | none => exact .none
  | some loaded => exact .some ⟨rfl, hs.readings.get? hread⟩

theorem matches_find (folder : TemplateFolder) (name : String) :
    Matches (Store.Beside digest) Eq (folder.find name) (folder.find name) := by
  refine matches_read
    (fun s => if s.files.present (folder.fileName name) then .ok (folder.fileName name)
      else .error (.unknownTemplate name)) ?_ (fun _ => rfl) fun _ _ _ _ => rfl
  intro s
  unfold TemplateFolder.find
  rw [outcome_bind, outcome_get, andThen_ok]
  split <;> rfl

theorem matches_keepReading (ref : Nat) (name : String) {loaded : Loaded} (h : loaded.IsText) :
    Matches (Store.Beside digest) Eq (OnStore.keepReading ref name loaded)
      (OnStore.keepReading ref name loaded) := by
  rintro s _ ⟨hs, rfl⟩
  exact ⟨.ok rfl, ⟨hs.memos, hs.caches, hs.readings.put ref h⟩, rfl⟩

theorem matches_remembered (folder : TemplateFolder) (name : String)
    {fetch : String → OnStore Loaded}
    (h : ∀ path, Matches (Store.Beside digest) Loaded.SameText (fetch path) (fetch path)) :
    Matches (Store.Beside digest) Loaded.SameText (folder.remembered name fetch)
      (folder.remembered name fetch) := by
  refine Matches.bind (matches_reading? folder.readings name) ?_
  intro found found' hfound
  cases hfound with
  | some hsame => exact Matches.pure hsame
  | none =>
    refine Matches.bind_same (matches_find folder name) fun path => ?_
    refine Matches.bind (h path) ?_
    rintro loaded _ ⟨rfl, htext⟩
    refine Matches.bind_same (matches_keepReading folder.readings name htext) fun _ => ?_
    exact Matches.pure ⟨rfl, htext⟩

/-! ### Every loader -/

theorem matches_firstKnown (name : String) : ∀ loads : List (OnStore Loaded),
    (∀ load ∈ loads, Matches (Store.Beside digest) Loaded.SameText load load) →
      Matches (Store.Beside digest) Loaded.SameText (Loader.firstKnown name loads)
        (Loader.firstKnown name loads)
  | [], _ => Matches.throw _
  | load :: loads, h => by
    refine Matches.tryCatch (h load List.mem_cons_self) fun error => ?_
    cases error with
    | unknownTemplate _ =>
      exact matches_firstKnown name loads fun load' hmem => h load' (List.mem_cons_of_mem load hmem)
    | _ => exact Matches.throw _

theorem mem_loads {name : String} {load : OnStore Loaded} : ∀ {loaders : List Loader},
    load ∈ Loader.loads loaders name → ∃ loader ∈ loaders, load = loader.load name
  | [], h => by
    rw [Loader.loads] at h
    cases h
  | loader :: loaders, h => by
    rw [Loader.loads] at h
    rcases List.mem_cons.1 h with rfl | h
    · exact ⟨loader, List.mem_cons_self, rfl⟩
    · obtain ⟨other, hmem, heq⟩ := mem_loads h
      exact ⟨other, List.mem_cons_of_mem loader hmem, heq⟩

/-- **A loader that hands out text** does not look at memos and caches. -/
theorem Loader.GivesText.matches_load {loader : Loader} (h : loader.GivesText) (name : String) :
    Matches (Store.Beside digest) Loaded.SameText (loader.load name) (loader.load name) := by
  induction h with
  | verbatim =>
    rw [Loader.load]
    exact Matches.pure ⟨rfl, name, rfl⟩
  | table ref =>
    rw [Loader.load]
    refine Matches.bind_same (matches_table ref) fun templates => ?_
    exact matches_inTable templates name
  | fixed templates =>
    rw [Loader.load]
    exact matches_inTable templates name
  | folder place =>
    rw [Loader.load]
    refine matches_remembered place name fun path => ?_
    refine Matches.bind_same (matches_readText path) fun text => ?_
    exact Matches.pure ⟨rfl, text, rfl⟩
  | cascade _ ih =>
    rw [Loader.load]
    refine matches_firstKnown name _ fun load hmem => ?_
    obtain ⟨loader, hloader, rfl⟩ := mem_loads hmem
    exact ih loader hloader
  | @given load hgiven =>
    rw [Loader.load]
    refine matches_read (fun _ => load name) (fun s => outcome_liftM s _) (fun _ => rfl) ?_
    intro _ _ loaded hloaded
    exact ⟨rfl, hgiven name loaded hloaded⟩

theorem Loader.GivesText.matches_loadKnown {loader : Loader} (h : loader.GivesText)
    (name : String) :
    Matches (Store.Beside digest) (Option.Rel Loaded.SameText) (Engine.loadKnown loader name)
      (Engine.loadKnown loader name) := by
  unfold Engine.loadKnown
  refine Matches.tryCatch ?_ fun error => ?_
  · refine Matches.bind (h.matches_load name) fun loaded loaded' hsame => ?_
    exact Matches.pure (.some hsame)
  · cases error with
    | unknownTemplate _ => exact Matches.pure .none
    | _ => exact Matches.throw _

end Loading

/-! ## Engines -/

namespace Engine

/-- The engine without a cache. -/
def bare (e : Engine) : Engine := { e with cache := .disabled }

/-- **What is asked of an engine** that shares its store. -/
structure Sharing (digest : String → String) (e : Engine) : Prop where
  digest_eq : e.digest = digest
  cache : e.cache.Internal
  accepted : e.HasAccepted
  loader : e.loader.GivesText
  partials : ∀ loader ∈ e.partials, loader.GivesText
  /-- Procedures ask for delimiters that a text names. -/
  actions : ∀ ref delimiters args, AcceptedIfAny delimiters →
    (e.host.callInSection ref ⟨delimiters⟩ args).Asks AcceptedIfAny

theorem Sharing.lambdaCache {digest : String → String} {e : Engine} (h : e.Sharing digest) :
    e.lambdaCache.Internal := by
  unfold Engine.lambdaCache
  split
  · exact h.cache
  · exact .disabled

/-- Two programs are the same, and its sections ask for accepted
delimiters. -/
def Handed (p p' : Program) : Prop :=
  p' = p ∧ ∀ key body, Entries.get? p.sections key = some body → AcceptedIfAny body.delimiters

theorem Handed.same {p p' : Program} (h : Handed p p') : p.Same AcceptedIfAny p' := by
  obtain ⟨rfl, hsections⟩ := h
  exact .refl hsections

/-- A program is run against the same context by both. -/
theorem alike_contextFor (e : Engine) (data : Value) :
    (e.contextFor data).Alike AcceptedIfAny (e.bare.contextFor data) := by
  refine ⟨rfl, rfl, ?_⟩
  change List.Forall₂ _ (e.contextFor data).overrides (e.contextFor data).overrides
  rw [overrides_contextFor]
  exact .nil

section

variable {digest : String → String} {e : Engine}

/-- Without cache and memos, a program is what the text is compiled to, and
nothing is kept. -/
theorem outcome_program_bare (e : Engine) (text : String) (asked : Option Delimiters) (s : Store) :
    outcome (e.bare.program (.text text) asked .disabled) s.bare =
      (e.compiled text asked, s.bare) := by
  have hmemo : outcome (OnStore.memo? e.bare.memo
      (e.bare.classNameOf (e.bare.textFingerprint text asked))) s.bare = (.ok none, s.bare) := rfl
  unfold program className fetch compileAndSave loadedText Cache.load Cache.save
  simp only [outcome_bind, outcome_pure, andThen_ok, hmemo, Option.bind_none, outcome_liftM]
  change andThen (andThen (e.compiled text asked, s.bare) _) _ = _
  cases e.compiled text asked with
  | error err => rfl
  | ok p => rfl

variable (hfree : CollisionFree digest) (he : e.Sharing digest)

include hfree he

theorem matches_program {cache : Cache} (hcache : cache.Internal) (text : String)
    {asked : Option Delimiters} (hasked : AcceptedIfAny asked) :
    Matches (Store.Beside digest) Handed (e.program (.text text) asked cache)
      (e.bare.program (.text text) asked .disabled) := by
  rintro s _ ⟨hs, rfl⟩
  obtain ⟨hgives, hsound⟩ :=
    gives_program_of_sound hfree hcache hs he.digest_eq he.accepted text hasked
  rw [outcome_program_bare, hgives.result_eq]
  refine ⟨?_, hsound, hgives.gains.bare.symm⟩
  cases hcompile : e.compiled text asked with
  | error err => exact .error err
  | ok p => exact .ok ⟨rfl, (e.filed_compile hcompile he.accepted hasked).2⟩

theorem matches_template (name : String) :
    Matches (Store.Beside digest) Handed (e.template name) (e.bare.template name) := by
  refine Matches.bind (he.loader.matches_load name) ?_
  rintro _ _ ⟨rfl, text, rfl⟩
  exact matches_program hfree he he.cache text .none

theorem matches_partialProgram (name : String) :
    Matches (Store.Beside digest) (Option.Rel Handed) (e.partialProgram name)
      (e.bare.partialProgram name) := by
  have hloader : ∀ loader ∈ e.partialLoader?, loader.GivesText := by
    unfold partialLoader?
    cases hpartials : e.partials with
    | some loader =>
      rintro _ ⟨⟩
      exact he.partials loader hpartials
    | none =>
      dsimp only
      split
      · rintro _ ⟨⟩
        exact he.loader
      · intro loader hloader
        cases hloader
  have hbare : e.bare.partialLoader? = e.partialLoader? := rfl
  unfold partialProgram
  rw [hbare]
  cases hfound : e.partialLoader? with
  | none => exact Matches.pure .none
  | some loader =>
    refine Matches.bind ((hloader loader hfound).matches_loadKnown name) ?_
    intro found found' hsame
    cases hsame with
    | none => exact Matches.pure .none
    | some hsame =>
      obtain ⟨rfl, text, rfl⟩ := hsame
      refine Matches.bind (matches_program hfree he he.cache text .none) ?_
      intro p p' hp
      exact Matches.pure (.some hp)

theorem matches_lambdaProgram (text : String) {asked : Option Delimiters}
    (hasked : AcceptedIfAny asked) :
    Matches (Store.Beside digest) Handed (e.lambdaProgram text asked)
      (e.bare.lambdaProgram text asked) := by
  have hbare : e.bare.lambdaCache = .disabled := ite_self _
  unfold lambdaProgram
  rw [hbare]
  exact matches_program hfree he he.lambdaCache text hasked.unlessStandard

/-- The engine and the one without a cache get the same programs. -/
theorem twins_bare : Twins AcceptedIfAny (Store.Beside digest) e e.bare where
  host := rfl
  escape := rfl
  none := .none
  actions := he.actions
  partials name := by
    refine (matches_partialProgram hfree he name).mono fun p p' hp => ?_
    cases hp with
    | none => exact .none
    | some hp => exact .some hp.same
  lambdas text _ hasked := (matches_lambdaProgram hfree he text hasked).mono fun _ _ hp => hp.same

theorem matches_runProgram {p p' : Program} (hp : Handed p p') (depth : Nat) (data : Value) :
    Matches (Store.Beside digest) Eq (e.runProgram depth p data)
      (e.bare.runProgram depth p' data) := by
  obtain ⟨ρ, hlines, hlinked⟩ := hp.same
  have hrun : Matches (Render.StatesAlike AcceptedIfAny (Store.Beside digest)) Eq
      (Render.code e depth p p.body "") (Render.code e.bare depth p' p'.body "") :=
    Render.runnersAlike_code (twins_bare hfree he) depth hlinked hlinked.body (.inl hlines)
  intro s t hst
  obtain ⟨hresult, hafter⟩ := hrun ⟨e.contextFor data, s⟩ ⟨e.contextFor data, t⟩
    ⟨alike_contextFor e data, hst⟩
  exact ⟨hresult, hafter.store⟩

theorem matches_render (depth : Nat) (name : String) (data : Value) :
    Matches (Store.Beside digest) Eq (e.render depth name data)
      (e.bare.render depth name data) := by
  refine Matches.bind (matches_working (matches_template hfree he name)) ?_
  intro p p' hp
  exact matches_runProgram hfree he hp depth data

theorem matches_renderDatum (depth : Nat) (name : String) (data : Datum) :
    Matches (Store.Beside digest) Eq (e.renderDatum depth name data)
      (e.bare.renderDatum depth name data) := by
  refine Matches.bind (matches_working (matches_template hfree he name)) ?_
  intro p p' hp
  have hvalue : Matches (Store.Beside digest) Eq (liftM data.toValue : OnStore Value)
      (liftM data.toValue) :=
    matches_read (fun _ => data.toValue) (fun s => outcome_liftM s _) (fun _ => rfl)
      fun _ _ _ _ => rfl
  refine Matches.bind_same (matches_working hvalue) fun value => ?_
  exact matches_runProgram hfree he hp depth value

end

end Engine

/-! ## Calls -/

/-- What an engine may be asked for. -/
inductive Call where
  | template (name : String)
  | insertion (name : String)
  | lambda (text : String) (asked : Option Delimiters)
  | render (depth : Nat) (name : String) (data : Value)
  | renderDatum (depth : Nat) (name : String) (data : Datum)

/-- What comes of a call. -/
inductive Reply where
  | template (result : Except Error Program)
  | insertion (result : Except Error (Option Program))
  | text (result : Except Stop String)

namespace Call

/-- What an engine gives, and the store after it. -/
def answer (e : Engine) (s : Store) : Call → Reply × Store
  | .template name => (outcome (e.template name) s).map .template id
  | .insertion name => (outcome (e.partialProgram name) s).map .insertion id
  | .lambda text asked => (outcome (e.lambdaProgram text asked) s).map .template id
  | .render depth name data => (outcome (e.render depth name data) s).map .text id
  | .renderDatum depth name data => (outcome (e.renderDatum depth name data) s).map .text id

/-- The delimiters that are asked for are such as a text names. -/
def Accepted : Call → Prop
  | .lambda _ asked => AcceptedIfAny asked
  | _ => True

/-- What engines give one after the other, and the store in the end. -/
def answers : List (Engine × Call) → Store → List Reply × Store
  | [], s => ([], s)
  | (e, call) :: calls, s =>
    let (reply, s) := call.answer e s
    let (replies, s) := answers calls s
    (reply :: replies, s)

section

variable {digest : String → String}

/-- **One call**: the reply is the same, and the store stays sound. -/
theorem answer_bare (hfree : CollisionFree digest) {e : Engine} (he : e.Sharing digest)
    {call : Call} (hcall : call.Accepted) {s t : Store} (hst : Store.Beside digest s t) :
    (call.answer e s).1 = (call.answer e.bare t).1 ∧
      Store.Beside digest (call.answer e s).2 (call.answer e.bare t).2 := by
  have hprogram : ∀ p p', Engine.Handed p p' → p = p' := fun _ _ hp => hp.1.symm
  cases call with
  | template name =>
    have hmatches := (Engine.matches_template hfree he name).mono hprogram
    obtain ⟨heq, hafter⟩ := hmatches.result_eq hst
    exact ⟨congrArg Reply.template heq, hafter⟩
  | insertion name =>
    have hmatches := (Engine.matches_partialProgram hfree he name).mono fun p p' hp =>
      show p = p' by
        cases hp with
        | none => rfl
        | some hp => rw [hprogram _ _ hp]
    obtain ⟨heq, hafter⟩ := hmatches.result_eq hst
    exact ⟨congrArg Reply.insertion heq, hafter⟩
  | lambda text asked =>
    have hmatches := (Engine.matches_lambdaProgram hfree he text hcall).mono hprogram
    obtain ⟨heq, hafter⟩ := hmatches.result_eq hst
    exact ⟨congrArg Reply.template heq, hafter⟩
  | render depth name data =>
    obtain ⟨heq, hafter⟩ := (Engine.matches_render hfree he depth name data).result_eq hst
    exact ⟨congrArg Reply.text heq, hafter⟩
  | renderDatum depth name data =>
    obtain ⟨heq, hafter⟩ := (Engine.matches_renderDatum hfree he depth name data).result_eq hst
    exact ⟨congrArg Reply.text heq, hafter⟩

/-- **Any calls, one after the other.** -/
theorem answers_bare (hfree : CollisionFree digest) {calls : List (Engine × Call)}
    (hcalls : ∀ c ∈ calls, c.1.Sharing digest ∧ c.2.Accepted) {s t : Store}
    (hst : Store.Beside digest s t) :
    (answers calls s).1 = (answers (calls.map fun c => (c.1.bare, c.2)) t).1 ∧
      (answers calls s).2.Sound digest := by
  induction calls generalizing s t with
  | nil => exact ⟨rfl, hst.1⟩
  | cons c calls ih =>
    obtain ⟨e, call⟩ := c
    obtain ⟨he, hcall⟩ := hcalls (e, call) List.mem_cons_self
    obtain ⟨hreply, hafter⟩ := answer_bare hfree he hcall hst
    obtain ⟨hreplies, hsound⟩ := ih (fun c hc => hcalls c (List.mem_cons_of_mem _ hc)) hafter
    refine ⟨?_, hsound⟩
    change (call.answer e s).1 :: (answers calls (call.answer e s).2).1 = _
    rw [hreply, hreplies]
    rfl

end

end Call

/-- **A store to start from**: no program is at hand, nothing in a cache can
be read, and what loaders have kept are texts. -/
structure Store.Untouched (s : Store) : Prop where
  memos : Holds s.memos fun _ _ => False
  caches : Holds s.caches fun _ stored => Program.restore? stored = none
  readings : Holds s.readings fun _ => Loaded.IsText

theorem Store.Untouched.sound {s : Store} (h : s.Untouched) (digest : String → String) :
    s.Sound digest where
  memos ref table htable key p hget := (h.memos ref table htable key p hget).elim
  caches ref table htable key stored hget := .inl (h.caches ref table htable key stored hget)
  readings := h.readings

/-- **A shared cache is invisible.** Engines that share caches and memos
reply to any calls, one after the other, as engines with the same options
do that have neither. In the end, and so after each call, memos and caches
hold under each class name the program of the texts that have it. And a
text that cannot be compiled changes nothing in the store. -/
theorem Call.answers_shared {digest : String → String} (hfree : CollisionFree digest)
    {calls : List (Engine × Call)} (hcalls : ∀ c ∈ calls, c.1.Sharing digest ∧ c.2.Accepted)
    {s : Store} (hs : s.Untouched) :
    (answers calls s).1 = (answers (calls.map fun c => (c.1.bare, c.2)) s.bare).1 ∧
      (answers calls s).2.Sound digest ∧
      ∀ (e : Engine) (text : String) (asked : Option Delimiters) (cache : Cache) (err : Error),
        e.Sharing digest → AcceptedIfAny asked → cache = e.cache ∨ cache = e.lambdaCache →
        (outcome (e.program (.text text) asked cache) (answers calls s).2).1 = .error err →
        (outcome (e.program (.text text) asked cache) (answers calls s).2).2 =
          (answers calls s).2 := by
  obtain ⟨hreplies, hsound⟩ := answers_bare hfree hcalls ⟨hs.sound digest, rfl⟩
  refine ⟨hreplies, hsound, ?_⟩
  intro e text asked cache err he hasked hcache hfailed
  have hinternal : cache.Internal := by
    rcases hcache with rfl | rfl
    · exact he.cache
    · exact he.lambdaCache
  obtain ⟨hgives, -⟩ := Engine.gives_program_of_sound hfree hinternal hsound he.digest_eq
    he.accepted text hasked
  rw [hgives.result_eq] at hfailed
  exact hgives.gains.failed err hfailed

/-! ### Two engines on one cache -/

section TwoEngines

/-- An engine that takes its template from its name and keeps programs in
the first cache of the store. -/
def sharer (digest : String → String) (memo : Nat) : Engine :=
  { (EngineOptions.standard .inert digest).toEngineSettings with
    cache := .memory 0, delimiters := none, pragmas := [], memo := memo }

theorem sharing_sharer (digest : String → String) (memo : Nat) :
    (sharer digest memo).Sharing digest where
  digest_eq := rfl
  cache := .memory 0
  accepted := .none
  loader := .verbatim
  partials := nofun
  actions _ _ _ _ := .done _

/-- A store with one cache and the memos of two engines, all empty. -/
def sharedStore : Store :=
  { Store.ofFiles (.empty "" []) with caches := ⟨[[]]⟩, memos := ⟨[[], []]⟩ }

theorem untouched_sharedStore : sharedStore.Untouched where
  memos := by rintro (_ | _ | ref) table htable key p hget <;> cases htable <;> cases hget
  caches := by
    rintro (_ | ref) table htable key stored hget
    · cases htable
      cases hget
    · cases htable
  readings := by
    rintro ref table htable
    cases htable

/-- SHA-256 on the text that the engines take their class name from. -/
def sharedDigest : String → String :=
  standInDigest ((sharer id 0).textFingerprint "Hello, \x7b\x7bname\x7d\x7d!" none)

/-- Two engines render one template, the second one from what the first
one has left in the cache. -/
def sharedCalls : List (Engine × Call) :=
  [(sharer sharedDigest 0,
      .render 8 "Hello, \x7b\x7bname\x7d\x7d!" (.map [("name", .str "you")])),
    (sharer sharedDigest 1,
      .render 8 "Hello, \x7b\x7bname\x7d\x7d!" (.map [("name", .str "you")]))]

theorem sharing_sharedCalls :
    ∀ c ∈ sharedCalls, c.1.Sharing sharedDigest ∧ c.2.Accepted := by
  intro c hc
  rcases List.mem_cons.1 hc with rfl | hc
  · exact ⟨sharing_sharer _ _, trivial⟩
  · rw [List.mem_singleton.1 hc]
    exact ⟨sharing_sharer _ _, trivial⟩

theorem Call.answers_shared_of_two_engines :
    CollisionFree sharedDigest ∧ sharedStore.Untouched ∧
      (answers sharedCalls sharedStore).1 =
        (answers (sharedCalls.map fun c => (c.1.bare, c.2)) sharedStore.bare).1 ∧
      (answers sharedCalls sharedStore).2.Sound sharedDigest := by
  have hfree : CollisionFree sharedDigest := collisionFree_standInDigest _
  obtain ⟨hreplies, hsound, -⟩ := answers_shared hfree sharing_sharedCalls untouched_sharedStore
  exact ⟨hfree, untouched_sharedStore, hreplies, hsound⟩

end TwoEngines

end Mustache
