import Mustache.Proofs.Asking
import Mustache.Proofs.DataAsText
import Mustache.Proofs.Found
import Mustache.Proofs.Lookups
/-!
# Mustache — what a render fails with

Errors travel up through templates that render other templates, and one error
of one call is caught: a loader may not know a name. Here every place that can
fail is accounted for. Against plain data, and with loaders that hold their texts
in memory, a render fails because of a filter, because of the syntax of the text
of a partial or parent, or because the cache of the engine fails over such a text
(`Engine.render_fails`). A tag whose template is unknown writes nothing
(`Render.outcome_unknown`).

The invariant is `Render.Watched`: the frames are parts of the data, and the
overrides on the stack belong to programs that engines have made, whose lookups
are grounded.
-/

namespace Mustache

/-! ## Rendering -/

namespace Render

/-- **A render against plain data**: its frames are drawn from some values, the
overrides on its stack belong to made programs, its store is stocked with such,
and has the tables that it began with. -/
structure Watched (caches : Cache → Prop) (roots : List Value) (start : Store) (s : State) :
    Prop where
  frames : s.context.DrawnFrom roots
  overrides : ∀ table ∈ s.context.overrides, ∀ name block, Entries.get? table name = some block →
    block.program.Made
  store : s.store.Stocked caches ∧ s.store.tables = start.tables

section

variable {caches : Cache → Prop} {e : Engine} {roots : List Value} {start : Store}
variable {again : Runner}

namespace Watched

variable {s : State} (h : Watched caches roots start s)

include h

theorem push {value : Value} (hvalue : value.FoundIn roots) :
    Watched caches roots start { s with context := s.context.push value } :=
  ⟨h.frames.push hvalue, h.overrides, h.store⟩

theorem pop : Watched caches roots start { s with context := s.context.pop } :=
  ⟨h.frames.pop, h.overrides, h.store⟩

theorem pushOverrides {p : Program} (hp : p.Made) (os : List (String × String)) :
    Watched caches roots start
      { s with context := s.context.pushOverrides (overrideTable p os) } := by
  refine ⟨h.frames, List.forall_mem_cons.2 ⟨fun name block hget => ?_, h.overrides⟩, h.store⟩
  obtain ⟨o, -, heq⟩ := List.mem_map.1 (Entries.mem_ofPairs (Entries.mem_of_get? hget))
  obtain rfl : ⟨p, o.2⟩ = block := congrArg Prod.snd heq
  exact hp

theorem popOverrides :
    Watched caches roots start { s with context := s.context.popOverrides } :=
  ⟨h.frames, fun table htable => h.overrides table (List.mem_of_mem_tail htable), h.store⟩

/-- An override belongs to a made program. -/
theorem override? {name : String} {block : BlockRef}
    (hfound : s.context.override? name = some block) : block.program.Made := by
  obtain ⟨table, htable, hget⟩ := List.exists_of_findSome?_eq_some hfound
  exact h.overrides table (List.mem_reverse.1 htable) name block hget

end Watched

/-- A run against plain data that fails as it may. -/
abbrev Passes {α : Type} (caches : Cache → Prop) (e : Engine) (roots : List Value) (start : Store)
    (V : α → Prop) (run : Render α) : Prop :=
  Yields (Watched caches roots start) V (Stop.In (e.MayFail start)) run

/-- A way to run grounded code of made programs that fails as it may. -/
def RunnerPasses (caches : Cache → Prop) (e : Engine) (roots : List Value) (start : Store)
    (again : Runner) : Prop :=
  ∀ {p : Program} {is : List Instr} (indent : String), p.Made → Instr.Grounded is →
    Passes caches e roots start (fun _ => True) (again p is indent)

section Values

variable (hroots : ∀ root ∈ roots, root.Plain)

include hroots

theorem passes_resolve {lookup : Lookup} (h : lookup.Grounded) :
    Passes caches e roots start (·.FoundIn roots) (resolve e lookup) := by
  refine .bind .get fun s hs => yields_ofExcept ?_
  obtain ⟨v, hv, hfound⟩ : ∃ v, s.context.resolve e.host lookup = .ok v ∧ v.FoundIn roots :=
    hs.frames.exists_resolve hroots h
  rw [hv]
  exact .ok hfound

/-- In plain data no filter is found. -/
theorem passes_applyFilters (strict : Bool) {value : Value} (hvalue : value.FoundIn roots)
    {filters : List Filter} (h : ∀ f ∈ filters, f.lookup.Grounded) :
    Passes caches e roots start (·.FoundIn roots) (applyFilters e strict value filters) := by
  cases filters with
  | nil => exact .pure hvalue
  | cons f fs =>
    unfold applyFilters
    refine .bind (passes_resolve hroots (h f List.mem_cons_self)) fun v hv => ?_
    rw [(hv.plain hroots).callable?_eq_none]
    exact .throw (.failed (.filter f.name))

theorem passes_settle (strict : Bool) {value : Value} (hvalue : value.FoundIn roots) :
    Passes caches e roots start (·.FoundIn roots) (settle e again strict value) := by
  unfold settle
  rw [(hvalue.plain hroots).callable?_eq_none]
  exact .pure hvalue

theorem passes_templateName (strict : Bool) {name : TemplateName}
    (h : ∀ lookup ∈ name.lookups, lookup.Grounded) :
    Passes caches e roots start (fun _ => True) (templateName e again strict name) := by
  cases name with
  | fixed name => exact .pure trivial
  | dynamic lookup =>
    refine .bind (passes_resolve hroots (h lookup List.mem_cons_self)) fun value hvalue => ?_
    exact .bind (passes_settle hroots strict hvalue) fun _ _ => .pure trivial

omit hroots in
theorem passes_forEach {body : Render String}
    (hbody : Passes caches e roots start (fun _ => True) body) {values : List Value}
    (hvalues : ∀ value ∈ values, value.FoundIn roots) :
    Passes caches e roots start (fun _ => True) (forEach body values) := by
  induction values with
  | nil => exact .pure trivial
  | cons value values ih =>
    obtain ⟨hvalue, hvalues⟩ := List.forall_mem_cons.1 hvalues
    have hframe : Passes caches e roots start (fun _ => True) (inFrame value body) :=
      yields_between (fun _ hs => hs.push hvalue) (fun _ hs => hs.pop) hbody
    unfold forEach
    exact .bind hframe fun _ _ => .bind (ih hvalues) fun _ _ => .pure trivial

theorem passes_sectionText (p : Program) (body : SectionBody) {value : Value}
    (hvalue : value.FoundIn roots) (indent : String)
    (hbody : Passes caches e roots start (fun _ => True) (again p body.body indent)) :
    Passes caches e roots start (fun _ => True) (sectionText e again p body value indent) := by
  unfold sectionText
  rw [(hvalue.plain hroots).callable?_eq_none]
  dsimp only
  split
  · exact .pure trivial
  · exact passes_forEach hbody fun v hv =>
      hvalue.part ((hvalue.plain hroots).hasPart_of_mem_elements e.host hv)

end Values

section Code

variable (hroots : ∀ root ∈ roots, root.Plain)
variable (hmemory : ∀ loader ∈ e.partialLoader?, loader.InMemory) (hcache : caches e.cache)
variable (hagain : RunnerPasses caches e roots start again)

omit hroots hagain

include hmemory hcache in
theorem passes_partial (name : String) :
    Passes caches e roots start (fun found => ∀ p ∈ found, p.Made)
      (onStore (e.partialProgram name)) := by
  have hmade := Yields.of_matches (Engine.matches_partialMade hcache name)
  have hfails := Engine.yields_partialProgram hmemory start name
  exact yields_onStore (hmade.and hfails) (fun s hs => hs.store)
    fun s store hs hstore => ⟨hs.frames, hs.overrides, hstore⟩

include hagain in
theorem passes_whole {p : Program} (hp : p.Made) (indent : String) :
    Passes caches e roots start (fun _ => True) (whole again p indent) :=
  hagain indent hp hp.grounded_body

include hagain in
theorem passes_overriding {block : BlockRef} (h : block.program.Made) :
    Passes caches e roots start (fun _ => True) (overriding again block) := by
  unfold overriding
  cases hbody : Entries.get? block.program.blocks block.key with
  | none => exact .pure trivial
  | some body => exact hagain "" h (h.grounded_override hbody)

include hroots hmemory hcache hagain in
theorem passes_parent {p : Program} (hp : p.Made) {name : TemplateName}
    (h : ∀ lookup ∈ name.lookups, lookup.Grounded) (os : List (String × String))
    (indent : String) :
    Passes caches e roots start (fun _ => True) (parent e again p name os indent) := by
  unfold parent
  refine .bind (passes_templateName hroots _ h) fun name _ => ?_
  refine .bind (passes_partial hmemory hcache name) fun found hfound => ?_
  cases found with
  | none => exact .pure trivial
  | some parent =>
    have hparent := passes_whole hagain (hfound parent rfl) indent
    dsimp only
    split
    · exact hparent
    · exact yields_between (fun _ hs => hs.pushOverrides hp os) (fun _ hs => hs.popOverrides)
        hparent

end Code

end

mutual

theorem passes_instrs {caches : Cache → Prop} {e : Engine} {roots : List Value} {start : Store}
    {again : Runner} (hroots : ∀ root ∈ roots, root.Plain)
    (hmemory : ∀ loader ∈ e.partialLoader?, loader.InMemory) (hcache : caches e.cache)
    (hagain : RunnerPasses caches e roots start again) {p : Program} (hp : p.Made)
    (indent : String) :
    ∀ is : List Instr, Instr.Grounded is →
      Passes caches e roots start (fun _ => True) (instrs e again p indent is)
  | [], _ => by
    rw [instrs]
    exact .pure trivial
  | i :: is, h => by
    have htail := (Instr.Grounded.cons_iff.1 h).2
    rw [instrs]
    refine .bind (passes_instr hroots hmemory hcache hagain hp indent i is h) fun _ _ => ?_
    exact .bind (passes_instrs hroots hmemory hcache hagain hp indent is htail) fun _ _ =>
      .pure trivial

theorem passes_instr {caches : Cache → Prop} {e : Engine} {roots : List Value} {start : Store}
    {again : Runner} (hroots : ∀ root ∈ roots, root.Plain)
    (hmemory : ∀ loader ∈ e.partialLoader?, loader.InMemory) (hcache : caches e.cache)
    (hagain : RunnerPasses caches e roots start again) {p : Program} (hp : p.Made)
    (indent : String) :
    ∀ (i : Instr) (is : List Instr), Instr.Grounded (i :: is) →
      Passes caches e roots start (fun _ => True) (instr e again p indent i)
  | .text value indented, _, _ => by
    rw [instr]
    exact .pure trivial
  | .interpolate lookup filters escape indented, _, h => by
    obtain ⟨hlookup, hfilters⟩ := List.forall_mem_cons.1 (Instr.Grounded.cons_iff.1 h).1
    rw [instr]
    refine .bind (passes_resolve hroots hlookup) fun found hfound => ?_
    refine .bind (passes_settle hroots _ hfound) fun value hvalue => ?_
    exact .bind (passes_applyFilters hroots _ hvalue (List.forall_mem_map.1 hfilters)) fun _ _ =>
      .pure trivial
  | .enter lookup filters key, _, h => by
    obtain ⟨hlookup, hfilters⟩ := List.forall_mem_cons.1 (Instr.Grounded.cons_iff.1 h).1
    rw [instr]
    refine .bind (passes_resolve hroots hlookup) fun found hfound => ?_
    refine .bind (passes_applyFilters hroots _ hfound (List.forall_mem_map.1 hfilters))
      fun value hvalue => ?_
    cases hget : Entries.get? p.sections key with
    | none => exact .pure trivial
    | some s =>
      have hbody := hagain indent hp (hp.grounded_section hget)
      exact passes_sectionText hroots p s hvalue indent hbody
  | .inverted lookup filters body, _, h => by
    obtain ⟨⟨hlookup, hfilters⟩, hbody, -⟩ := Instr.Grounded.inverted_iff.1 h
    rw [instr]
    refine .bind (passes_resolve hroots hlookup) fun found hfound => ?_
    refine .bind (passes_applyFilters hroots _ hfound hfilters) fun value hvalue => ?_
    split
    · exact passes_instrs hroots hmemory hcache hagain hp indent body hbody
    · exact .pure trivial
  | .insertPartial name captured, _, h => by
    have hname := (Instr.Grounded.cons_iff.1 h).1
    rw [instr]
    refine .bind (passes_templateName hroots _ hname) fun name _ => ?_
    refine .bind (passes_partial hmemory hcache name) fun found hfound => ?_
    cases found with
    | none => exact .pure trivial
    | some inner => exact passes_whole hagain (hfound inner rfl) _
  | .extend name os, _, h => by
    rw [instr]
    exact passes_parent hroots hmemory hcache hagain hp (Instr.Grounded.cons_iff.1 h).1 os indent
  | .block name default, _, h => by
    obtain ⟨hdefault, -⟩ := Instr.Grounded.block_iff.1 h
    rw [instr]
    intro s hs
    rw [outcome_bind, outcome_get, andThen_ok]
    cases hfound : s.context.override? name with
    | none => exact passes_instrs hroots hmemory hcache hagain hp indent default hdefault s hs
    | some block => exact passes_overriding hagain (hs.override? hfound) s hs

end

/-- **Grounded code of made programs fails as it may**, however deep places
nest. -/
theorem runnerPasses_code {caches : Cache → Prop} {e : Engine} {roots : List Value}
    {start : Store} (hroots : ∀ root ∈ roots, root.Plain)
    (hmemory : ∀ loader ∈ e.partialLoader?, loader.InMemory) (hcache : caches e.cache)
    (depth : Nat) : RunnerPasses caches e roots start (code e depth) := by
  induction depth with
  | zero => exact fun _ _ _ => .throw .exhausted
  | succ depth ih =>
    exact fun indent hp his => passes_instrs hroots hmemory hcache ih hp indent _ his

/-! ## Unknown names -/

section Unknown

variable {e : Engine} {again : Runner} {s : State}

/-- In plain data the name of a template is had without a change. -/
theorem templateName_keeps (hframes : ∀ frame ∈ s.context.frames, frame.Plain) (strict : Bool)
    (name : TemplateName) : (outcome (templateName e again strict name) s).2 = s := by
  cases name with
  | fixed name => rfl
  | dynamic lookup =>
    have hdrawn : s.context.DrawnFrom s.context.frames := fun frame hframe => .root hframe
    unfold templateName
    rw [outcome_bind, outcome_resolve]
    cases hvalue : s.context.resolve e.host lookup with
    | error err => rfl
    | ok value =>
      have hplain : value.Plain := (hdrawn.resolve hframes hvalue).plain hframes
      change (outcome (settle e again strict value >>= _) s).2 = s
      unfold settle
      rw [hplain.callable?_eq_none]
      rfl

/-- **A tag whose template is unknown writes nothing**: what is behind it is run
as if there was no tag. -/
theorem outcome_unknown (hmemory : ∀ loader ∈ e.partialLoader?, loader.InMemory)
    (hframes : ∀ frame ∈ s.context.frames, frame.Plain) {p : Program} {name : TemplateName}
    {found : String}
    (hname : (outcome (templateName e again p.strictCallables name) s).1 = .ok found)
    (hunknown : ∀ loader ∈ e.partialLoader?, ∀ text,
      (outcome (loader.load found) s.store).1 ≠ .ok (.text text)) {tag : Instr}
    (htag : (∃ captured, tag = .insertPartial name captured) ∨ ∃ os, tag = .extend name os)
    (indent : String) (rest : List Instr) :
    outcome (instrs e again p indent (tag :: rest)) s =
      outcome (instrs e again p indent rest) s := by
  have hfound : outcome (templateName e again p.strictCallables name) s = (.ok found, s) :=
    Prod.ext hname (templateName_keeps hframes _ name)
  have hnone : outcome (onStore (e.partialProgram found)) s = (.ok none, s) := by
    rw [outcome_onStore, Engine.outcome_partialProgram_unknown hmemory hunknown]
    rfl
  have hempty : outcome (instr e again p indent tag) s = (.ok "", s) := by
    rcases htag with ⟨captured, rfl⟩ | ⟨os, rfl⟩
    · rw [instr, outcome_bind, hfound, andThen_ok, outcome_bind, hnone]
      rfl
    · rw [instr, parent, outcome_bind, hfound, andThen_ok, outcome_bind, hnone]
      rfl
  rw [instrs, outcome_bind, hempty, andThen_ok, outcome_bind]
  rcases outcome (instrs e again p indent rest) s with ⟨stop | more, s'⟩
  · rfl
  · rw [andThen_ok, String.empty_append]
    rfl

end Unknown

end Render

namespace Engine

section

variable {caches : Cache → Prop} {e : Engine} {s : Store} {name : String} {p : Program}
variable {data : Value}

theorem inMemory_partialLoader (htemplates : e.loader.InMemory)
    (hpartials : ∀ loader ∈ e.partials, loader.InMemory) :
    ∀ loader ∈ e.partialLoader?, loader.InMemory := by
  unfold partialLoader?
  split
  · next loader hloader =>
    rintro _ ⟨⟩
    exact hpartials loader hloader
  · split
    · rintro _ ⟨⟩
      exact htemplates
    · exact nofun

/-- After a template was loaded the store is stocked, and has its tables. -/
theorem yields_template (htemplates : e.loader.InMemory) (hcache : caches e.cache) (start : Store)
    (name : String) :
    Yields (fun s => s.Stocked caches ∧ s.tables = start.tables) Program.Made (fun _ => True)
      (e.template name) := by
  refine .and (.of_matches (matches_templateMade hcache name)) ?_
  have hload : Yields (fun s => s.tables = start.tables) (fun loaded => ∃ text, loaded = .text text)
      (fun _ => True) (e.loader.load name) := by
    intro s hs
    obtain ⟨result, hresult, houtcome⟩ := htemplates.readsTables name start.tables
    rw [houtcome s hs]
    refine ⟨?_, hs⟩
    cases hresult with
    | text text => exact .ok ⟨text, rfl⟩
    | unknown unknown => exact .error trivial
  refine .bind hload ?_
  rintro _ ⟨text, rfl⟩
  exact yields_program (fun _ _ => trivial) fun _ _ => trivial

/-- **A render fails as it may.** -/
theorem mayFail_of_render (htemplates : e.loader.InMemory)
    (hpartials : ∀ loader ∈ e.partials, loader.InMemory) (hcache : caches e.cache)
    (hs : s.Stocked caches) (hloads : (outcome (e.template name) s).1 = .ok p)
    (hdata : data.Plain) (hhelpers : ∀ entry ∈ e.helpers, entry.2.Plain) {depth : Nat}
    {err : Error} (herr : (outcome (e.render depth name data) s).1 = .error (.failed err)) :
    e.MayFail s err := by
  have hmemory := inMemory_partialLoader htemplates hpartials
  obtain ⟨hends, hstore⟩ := yields_template htemplates hcache s name s ⟨hs, rfl⟩
  rcases houtcome : outcome (e.template name) s with ⟨result, s'⟩
  rw [houtcome] at hends hstore hloads
  obtain rfl : result = .ok p := hloads
  obtain hp : p.Made := by
    cases hends with
    | ok hp => exact hp
  have hwatched : Render.Watched caches (e.roots data) s ⟨e.contextFor data, s'⟩ := by
    refine ⟨drawnFrom_contextFor e data, ?_, hstore⟩
    rw [overrides_contextFor]
    exact nofun
  have hpasses : Render.RunnerPasses caches e (e.roots data) s (Render.code e depth) :=
    Render.runnerPasses_code (plain_roots hdata hhelpers) hmemory hcache depth
  have hrun := hpasses "" hp hp.grounded_body _ hwatched
  have hrender : (outcome (e.render depth name data) s).1 =
      (outcome (Render.code e depth p p.body "") ⟨e.contextFor data, s'⟩).1 := by
    unfold render
    rw [outcome_bind, outcome_working, houtcome]
    rfl
  rw [← hrender, herr] at hrun
  cases hrun.1 with
  | error hstop =>
    cases hstop with
    | failed hmay => exact hmay

/-- **What a render fails with.** The texts of templates and partials are in
memory, and what is at hand and in the cache was compiled by engines; the
template loads, and data and helpers are plain. Then a render fails because a
filter is unknown, because the text of a partial or parent is malformed, or
because the cache fails where the program of such a text is loaded or stored,
and for no other reason. A tag whose template is unknown, under a fixed name or
one held by the context, writes nothing in any run, and what is behind it is run
on. And no program that was compiled asks for a name inside the top frame that
has no leading dot. -/
theorem render_fails (htemplates : e.loader.InMemory)
    (hpartials : ∀ loader ∈ e.partials, loader.InMemory) (hcache : caches e.cache)
    (hs : s.Stocked caches) (hloads : (outcome (e.template name) s).1 = .ok p)
    (hdata : data.Plain) (hhelpers : ∀ entry ∈ e.helpers, entry.2.Plain) :
    (∀ depth err, (outcome (e.render depth name data) s).1 = .error (.failed err) →
      e.MayFail s err) ∧
    (∀ (again : Render.Runner) (q : Program) (indent : String) (r : Render.State)
      (reference : TemplateName) (found : String) (tag : Instr) (rest : List Instr),
      (∀ frame ∈ r.context.frames, frame.Plain) →
      (outcome (Render.templateName e again q.strictCallables reference) r).1 = .ok found →
      (∀ loader ∈ e.partialLoader?, ∀ text,
        (outcome (loader.load found) r.store).1 ≠ .ok (.text text)) →
      ((∃ captured, tag = .insertPartial reference captured) ∨
        ∃ os, tag = .extend reference os) →
      outcome (Render.instrs e again q indent (tag :: rest)) r =
        outcome (Render.instrs e again q indent rest) r) ∧
    ∀ q : Program, q.Made → ∀ id, .findAnchored id ∈ q.lookups →
      ∃ names, Context.namesOf id = "" :: names := by
  refine ⟨fun depth err => mayFail_of_render htemplates hpartials hcache hs hloads hdata hhelpers,
    fun again q indent r reference found tag rest hframes hname hunknown htag => ?_,
    fun q hq id hid => hq.grounded _ hid⟩
  have hmemory := inMemory_partialLoader htemplates hpartials
  exact Render.outcome_unknown hmemory hframes hname hunknown htag indent rest

end

/-! ### A partial that is malformed behind two that are unknown -/

/-- An engine with a page of three partials, of which the last one alone is
known. -/
def lookout : Engine :=
  { standard .inert id 0 with
    pragmas := [.dynamicNames]
    loader := .fixed
      [("page", "\x7b\x7b>gone\x7d\x7d\x7b\x7b>*n\x7d\x7d\x7b\x7b>open\x7d\x7d"),
        ("open", "\x7b\x7b#a\x7d\x7d")] }

/-- The error that a run failed with, if it did. -/
def failure? {α : Type} : Except Stop α → Option Error
  | .error (.failed err) => some err
  | _ => none

theorem eq_error_of_failure? {α : Type} {result : Except Stop α} {err : Error}
    (h : failure? result = some err) : result = .error (.failed err) := by
  rcases result with (_ | _) | _
  · cases h
    rfl
  · cases h
  · cases h

/-- The two are passed over, and the third one fails the render. -/
theorem render_fails_of_open :
    let data := Value.map [("n", .str "lost")]
    let store := Store.ofFiles (.empty "" [])
    let r : Render.State := ⟨lookout.contextFor data, store⟩
    (∃ p, (outcome (lookout.template "page") store).1 = .ok p) ∧ data.Plain ∧
      (∃ err, (outcome (lookout.render 3 "page" data) store).1 = .error (.failed err) ∧
        lookout.MayFail store err) ∧
      ∀ (again : Render.Runner) (q : Program) (rest : List Instr),
        outcome (Render.instrs lookout again q ""
          (.insertPartial (.dynamic (.find "n")) none :: rest)) r =
        outcome (Render.instrs lookout again q "" rest) r := by
  intro data store r
  have hdata : data.Plain := .map (List.forall_mem_singleton.2 (.str "lost"))
  have hloads : (outcome (lookout.template "page") store).1.toOption.isSome = true := by
    decide +kernel
  obtain ⟨p, hp⟩ := Option.isSome_iff_exists.1 hloads
  have hp := eq_ok_of_toOption hp
  have hfails : (failure? (outcome (lookout.render 3 "page" data) store).1).isSome = true := by
    decide +kernel
  obtain ⟨err, hfailure⟩ := Option.isSome_iff_exists.1 hfails
  have herr := eq_error_of_failure? hfailure
  have hstocked : store.Stocked (· = .disabled) := stocked_ofFiles _
  have hpartials : ∀ loader ∈ lookout.partials, loader.InMemory := by
    rintro _ ⟨⟩
  have hhelpers : ∀ entry ∈ lookout.helpers, entry.2.Plain := by
    rintro _ ⟨⟩
  obtain ⟨hmay, hpassed, -⟩ :=
    @render_fails (· = .disabled) lookout store "page" p data (.fixed _) hpartials rfl hstocked hp
      hdata hhelpers
  refine ⟨⟨p, hp⟩, hdata, ⟨err, herr, hmay 3 err herr⟩, fun again q rest => ?_⟩
  have hframes : ∀ frame ∈ r.context.frames, frame.Plain := List.forall_mem_singleton.2 hdata
  refine hpassed again q "" r (.dynamic (.find "n")) "lost" _ rest hframes rfl ?_
    (.inl ⟨none, rfl⟩)
  rintro _ ⟨⟩ text h
  cases h

/-! ### Caches in the way -/

/-- The only errors of a render are unknown filters and malformed templates. -/
def FailsInTextOnly (e : Engine) (s : Store) (name : String) (data : Value) : Prop :=
  e.loader.InMemory → (∀ loader ∈ e.partials, loader.InMemory) →
    (∃ p, (outcome (e.template name) s).1 = .ok p) → data.Plain →
    (∀ entry ∈ e.helpers, entry.2.Plain) →
    ∀ depth err, (outcome (e.render depth name data) s).1 = .error (.failed err) →
      (∃ filter, err = .unknownFilter filter) ∨ err.IsMalformed

/-- **With a cache in memory, or with none**, that holds of each render, if what is
at hand and in the cache was compiled by engines. -/
theorem failsInTextOnly_of_internal {caches : Cache → Prop} {e : Engine} {s : Store}
    (hinternal : e.cache.Internal) (hcache : caches e.cache) (hs : s.Stocked caches)
    (name : String) (data : Value) : e.FailsInTextOnly s name data := by
  rintro htemplates hpartials ⟨p, hp⟩ hdata hhelpers depth err herr
  have hmay : e.MayFail s err :=
    mayFail_of_render htemplates hpartials hcache hs hp hdata hhelpers herr
  cases hmay with
  | filter name => exact .inl ⟨name, rfl⟩
  | malformed _ _ _ => exact .inr ⟨_, _, rfl⟩
  | cache _ _ hfails => exact absurd hfails (not_cacheFails hinternal)

/-- An engine with one partial and a cache. -/
def cachingIn (cache : Cache) : Engine :=
  { standard .inert id 0 with partials := some (.fixed [("p", "x")]), cache }

/-- The class name of its partial. -/
def partialKey : String :=
  (cachingIn .disabled).classNameOf ((cachingIn .disabled).textFingerprint "x" none)

/-- A cache that cannot take the program of the partial, since a folder is in the
place of its file. -/
def cloggedCache : Cache :=
  .given (fun _ => .ok none) fun key _ =>
    if key = partialKey then .error (.runtime (.writeEntry (Cache.fileName "c" key) .isFolder))
    else .ok ()

/-- A store with a cache in memory that has another program under the class name
of the partial: it asks for a name without a leading dot inside the top frame. -/
def foreignStore : Store :=
  let p : Program :=
    ⟨"p", true, .html 11, [.interpolate (.findAnchored "x") [] true true], [], []⟩
  { Store.ofFiles (.empty "" []) with caches := (Pool.empty.add [(partialKey, p.store)]).2 }

theorem not_failsInTextOnly {e : Engine} {s : Store} {name : String} (depth : Nat)
    (htemplates : e.loader.InMemory) (hpartials : ∀ loader ∈ e.partials, loader.InMemory)
    (hhelpers : ∀ entry ∈ e.helpers, entry.2.Plain)
    (hloads : (outcome (e.template name) s).1.toOption.isSome = true)
    (hfails : (match (outcome (e.render depth name .null) s).1 with
      | .error (.failed (.runtime _)) | .error (.failed (.invalidArgument _)) => true
      | _ => false) = true) : ¬ e.FailsInTextOnly s name .null := by
  intro h
  obtain ⟨p, hp⟩ := Option.isSome_iff_exists.1 hloads
  have herrors := h htemplates hpartials ⟨p, eq_ok_of_toOption hp⟩ .null hhelpers depth
  split at hfails
  · next cause herr => rcases herrors _ herr with ⟨_, heq⟩ | ⟨_, _, heq⟩ <;> cases heq
  · next cause herr => rcases herrors _ herr with ⟨_, heq⟩ | ⟨_, _, heq⟩ <;> cases heq
  · cases hfails

/-- **A cache that cannot be written, or that holds what no engine compiled,
fails the render of a page**: the one because the program of its partial cannot
be stored, the other because that program asks for what no compiled program
asks. -/
theorem render_fails_in_cache :
    ¬ (cachingIn cloggedCache).FailsInTextOnly (.ofFiles (.empty "" [])) "\x7b\x7b>p\x7d\x7d"
      .null ∧
      ¬ (cachingIn (.memory 0)).FailsInTextOnly foreignStore "\x7b\x7b>p\x7d\x7d" .null := by
  have hpartials : ∀ loader ∈ some (Loader.fixed [("p", "x")]), loader.InMemory := by
    rintro _ ⟨⟩
    exact .fixed _
  exact ⟨not_failsInTextOnly 2 .verbatim hpartials nofun (by decide +kernel) (by decide +kernel),
    not_failsInTextOnly 2 .verbatim hpartials nofun (by decide +kernel) (by decide +kernel)⟩

end Engine

end Mustache
