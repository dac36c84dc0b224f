import Mustache.Proofs.Compositional
import Mustache.Proofs.PlainData
/-!
# Mustache — data is text, never a template

Two places of the renderer could take a value for more than its text: a
text that a procedure gives is compiled as a template, and a variable tag
may call what it finds. `Handling` makes both exchangeable. The renderer
with the handling of an engine is the renderer of the engine
(`codeBy_own`).

Over plain data neither makes a difference. All frames are drawn from the
data and the helpers, so nothing that is found can be called, and a
variable tag writes the text of what it finds. Two renderers that do that
much agree (`codeBy_agree`), whatever they would do with the text of a
procedure.
-/

namespace Mustache

namespace Render

/-- How a renderer comes by the program of a text that a procedure
gives. -/
abbrev TextLoader := String → Option Delimiters → OnStore Program

/-- How a renderer writes a variable tag: the lookup, the filters and
whether the text is escaped. -/
abbrev VariableWriter := Runner → Program → Lookup → List Filter → Bool → Render String

/-- The places where a renderer could take a value for more than text. -/
structure Handling where
  load : TextLoader
  write : VariableWriter

/-! ## The renderer with its handling exchanged -/

section Exchanged

variable (e : Engine)

section

variable (load : TextLoader) (again : Runner)

/-- `given`, with the program from elsewhere. -/
def givenBy (text : String) (asked : Option Delimiters) : Render String := do
  whole again (← onStore (load text asked)) ""

/-- `settle`, with the program from elsewhere. -/
def settleBy (strict : Bool) (value : Value) : Render Value := do
  match value.callable? e.host strict with
  | none => return value
  | some ref =>
    let result ← ofExcept (e.host.call ref [])
    return .str (← givenBy load again (result.text e.host) none)

/-- `templateName`, with the program from elsewhere. -/
def templateNameBy (strict : Bool) : TemplateName → Render String
  | .fixed name => return name
  | .dynamic lookup => do
    return (← settleBy e load again strict (← resolve e lookup)).text e.host

/-- `perform`, with the programs from elsewhere. -/
def performBy : Action → Render Value
  | .done result => ofExcept result
  | .render asked text next => do
    let result ← attempt (givenBy load again text asked)
    performBy (next result)

/-- `lambdaSection`, with the programs from elsewhere. -/
def lambdaSectionBy (s : SectionBody) (ref : Nat) : Render String := do
  let result ← performBy load again (e.host.callInSection ref ⟨s.delimiters⟩ [.str s.source])
  let text := result.text e.host
  if hasTag s text then givenBy load again text s.delimiters else return text

/-- `sectionText`, with the programs from elsewhere. -/
def sectionTextBy (p : Program) (s : SectionBody) (value : Value) (indent : String) :
    Render String :=
  match value.callable? e.host p.strictCallables with
  | some ref => lambdaSectionBy e load again s ref
  | none =>
    if value.isEmpty then return ""
    else forEach (again p s.body indent) ((value.elements? e.host).getD [value])

/-- `parent`, with the program of a dynamic name from elsewhere. -/
def parentBy (p : Program) (name : TemplateName) (overrides : List (String × String))
    (indent : String) : Render String := do
  let name ← templateNameBy e load again p.strictCallables name
  match ← onStore (e.partialProgram name) with
  | none => return ""
  | some parent =>
    if overrides.isEmpty then whole again parent indent
    else withOverrides (overrideTable p overrides) (whole again parent indent)

end

/-- How the renderer itself writes a variable tag, the programs of texts
that procedures give aside. -/
def writer (load : TextLoader) : VariableWriter := fun again p lookup filters escape => do
  let value ← settleBy e load again p.strictCallables (← resolve e lookup)
  let value ← applyFilters e p.strictCallables value filters
  let text := value.text e.host
  return if escape then escaped e p text else text

/-- The handling of an engine. -/
def Handling.own : Handling := ⟨e.lambdaProgram, writer e e.lambdaProgram⟩

variable (h : Handling)

section

variable (again : Runner)

mutual

/-- `instrs`, with the handling exchanged. -/
def instrsBy (p : Program) (indent : String) : List Instr → Render String
  | [] => return ""
  | i :: is => do
    let first ← instrBy p indent i
    let more ← instrsBy p indent is
    return first ++ more

/-- `instr`, with the handling exchanged. -/
def instrBy (p : Program) (indent : String) : Instr → Render String
  | .text value indented => return (if indented then indent else "") ++ value
  | .interpolate lookup filters escape indented => do
    let text ← h.write again p lookup filters escape
    return (if indented then indent else "") ++ text
  | .enter lookup filters key => do
    let value ← applyFilters e p.strictCallables (← resolve e lookup) filters
    match Entries.get? p.sections key with
    | some s => sectionTextBy e h.load again p s value indent
    | none => return ""
  | .inverted lookup filters body => do
    let value ← applyFilters e p.strictCallables (← resolve e lookup) filters
    if value.isEmpty then instrsBy p indent body else return ""
  | .insertPartial name captured => do
    let name ← templateNameBy e h.load again p.strictCallables name
    match ← onStore (e.partialProgram name) with
    | some inner => whole again inner (partialIndent indent captured)
    | none => return ""
  | .extend name overrides => parentBy e h.load again p name overrides indent
  | .block name default => do
    match (← get).context.override? name with
    | some block => overriding again block
    | none => instrsBy p indent default

end

end

/-- `code`, with the handling exchanged. -/
def codeBy : Nat → Runner
  | 0 => fun _ _ _ => throw .exhausted
  | depth + 1 => fun p is indent => instrsBy e h (codeBy depth) p indent is

/-! The definitions above say nothing new. -/

theorem performBy_own (again : Runner) (action : Action) :
    performBy e.lambdaProgram again action = perform e again action := by
  induction action with
  | done result => rfl
  | render asked text next ih => exact bind_congr ih

mutual

theorem instrsBy_own (again : Runner) (p : Program) (indent : String) (is : List Instr) :
    instrsBy e (.own e) again p indent is = instrs e again p indent is := by
  cases is with
  | nil => rfl
  | cons i is =>
    rw [instrsBy, instrs, instrBy_own again p indent i, instrsBy_own again p indent is]

theorem instrBy_own (again : Runner) (p : Program) (indent : String) (i : Instr) :
    instrBy e (.own e) again p indent i = instr e again p indent i := by
  cases i with
  | text => rfl
  | interpolate lookup filters escape indented =>
    simp only [instrBy, instr, Handling.own, writer, bind_assoc, pure_bind]
    rfl
  | enter lookup filters key =>
    have hlambda (s : SectionBody) (ref : Nat) :
        lambdaSectionBy e e.lambdaProgram again s ref = lambdaSection e again s ref := by
      unfold lambdaSectionBy lambdaSection
      rw [performBy_own]
      rfl
    have hsection (s : SectionBody) (value : Value) :
        sectionTextBy e e.lambdaProgram again p s value indent =
          sectionText e again p s value indent := by
      unfold sectionTextBy sectionText
      cases value.callable? e.host p.strictCallables with
      | some ref => exact hlambda s ref
      | none => rfl
    rw [instrBy, instr]
    refine bind_congr fun found => bind_congr fun value => ?_
    cases Entries.get? p.sections key with
    | some s => exact hsection s value
    | none => rfl
  | inverted lookup filters body =>
    simp only [instrBy, instr, instrsBy_own again p indent body]
  | insertPartial name captured => cases name <;> rfl
  | extend name overrides => cases name <;> rfl
  | block name default =>
    rw [instrBy, instr]
    refine bind_congr fun s => ?_
    cases s.context.override? name with
    | some block => rfl
    | none => exact instrsBy_own again p indent default

end

/-- **The renderer of an engine is the one with the handling of the
engine.** -/
theorem codeBy_own (depth : Nat) : codeBy e (.own e) depth = code e depth := by
  induction depth with
  | zero => rfl
  | succ depth ih =>
    funext p is indent
    change instrsBy e (.own e) (codeBy e (.own e) depth) p indent is = _
    rw [ih, instrsBy_own]
    rfl

end Exchanged

/-! ## Variables that write what they find -/

section Agreement

variable {e : Engine} {roots : List Value}

/-- The text of what a variable tag finds, escaped or plain. Where nothing
can be called there is no filter. -/
def foundText (e : Engine) (p : Program) (c : Context) (lookup : Lookup) (filters : List Filter)
    (escape : Bool) : Except Error String := do
  let value ← c.resolve e.host lookup
  match filters with
  | [] => return if escape then escaped e p (value.text e.host) else value.text e.host
  | f :: _ => do
    let _ ← c.resolve e.host f.lookup
    throw (.unknownFilter f.name)

/-- **The writer writes what it finds**: where the frames are drawn from
some values, and so what the tag finds, it writes the text of that and
does nothing else. -/
def WritesFound (e : Engine) (roots : List Value) (write : VariableWriter) : Prop :=
  ∀ again p lookup filters escape (s : State), s.context.DrawnFrom roots →
    (∀ value, s.context.resolve e.host lookup = .ok value → value.FoundIn roots) →
    outcome (write again p lookup filters escape) s =
      ((foundText e p s.context lookup filters escape).mapError .failed, s)

/-- One state, in which all frames are drawn from some values. -/
def Drawn (roots : List Value) (s t : State) : Prop := s = t ∧ s.context.DrawnFrom roots

/-- Two runs do the same wherever the frames are drawn from some values,
and leave them so. -/
abbrev Agree {α : Type} (roots : List Value) (run run' : Render α) : Prop :=
  Matches (Drawn roots) Eq run run'

/-- A run that gives the same value on both sides, one that can be found. -/
abbrev Finds (roots : List Value) (run : Render Value) : Prop :=
  Matches (Drawn roots) (fun a b => a = b ∧ a.FoundIn roots) run run

theorem Agree.of_balanced {α : Type} {run : Render α} (h : Balanced run) :
    Agree roots run run := by
  rintro s _ ⟨rfl, hdrawn⟩
  refine ⟨?_, rfl, ?_⟩
  · cases (outcome run s).1 with
    | error stop => exact .error stop
    | ok a => exact .ok rfl
  · rw [show (outcome run s).2.context = s.context from h s]
    exact hdrawn

theorem Agree.between {α : Type} {enter leave : Context → Context} {run run' : Render α}
    (henter : ∀ c : Context, c.DrawnFrom roots → (enter c).DrawnFrom roots)
    (hleave : ∀ c : Context, c.DrawnFrom roots → (leave c).DrawnFrom roots)
    (h : Agree roots run run') :
    Agree roots (Render.between enter leave run) (Render.between enter leave run') := by
  rintro s _ ⟨rfl, hdrawn⟩
  obtain ⟨hresult, heq, hafter⟩ := h { s with context := enter s.context } _
    ⟨rfl, henter s.context hdrawn⟩
  rw [outcome_between, outcome_between]
  exact ⟨hresult, by rw [heq], hleave _ hafter⟩

theorem Agree.forEach {body body' : Render String} (h : Agree roots body body')
    {values : List Value} (hvalues : ∀ value ∈ values, value.FoundIn roots) :
    Agree roots (Render.forEach body values) (Render.forEach body' values) := by
  induction values with
  | nil => exact .pure rfl
  | cons value values ih =>
    obtain ⟨hvalue, hvalues⟩ := List.forall_mem_cons.1 hvalues
    exact .append (Agree.between (fun c hc => hc.push hvalue) (fun c hc => hc.pop) h)
      (ih hvalues)

section Plainly

variable (hroots : ∀ root ∈ roots, root.Plain)

include hroots

theorem finds_resolve (lookup : Lookup) : Finds roots (resolve e lookup) := by
  rintro s _ ⟨rfl, hdrawn⟩
  unfold resolve
  rw [outcome_bind, outcome_get, andThen_ok, outcome_ofExcept]
  refine ⟨?_, rfl, hdrawn⟩
  cases hresolve : s.context.resolve e.host lookup with
  | error err => exact .error _
  | ok value => exact .ok ⟨rfl, hdrawn.resolve hroots hresolve⟩

/-- Filters leave no value but the one without filters. -/
theorem finds_applyFilters (strict : Bool) {value : Value} (hvalue : value.FoundIn roots)
    (filters : List Filter) : Finds roots (applyFilters e strict value filters) := by
  cases filters with
  | nil => exact .pure ⟨rfl, hvalue⟩
  | cons f fs =>
    refine .bind (finds_resolve hroots f.lookup) ?_
    rintro found _ ⟨rfl, hfound⟩
    rw [(hfound.plain hroots).callable?_eq_none]
    exact .throw _

theorem settleBy_eq (load : TextLoader) (again : Runner) (strict : Bool) {value : Value}
    (hvalue : value.FoundIn roots) : settleBy e load again strict value = pure value := by
  unfold settleBy
  rw [(hvalue.plain hroots).callable?_eq_none]

/-- **The renderer's own writer writes what it finds**, whatever it would do
with the text of a procedure. -/
theorem writesFound_writer (load : TextLoader) : WritesFound e roots (writer e load) := by
  intro again p lookup filters escape s hdrawn hfound
  unfold writer foundText resolve
  simp only [outcome_bind, outcome_get, andThen_ok]
  cases hresolve : s.context.resolve e.host lookup with
  | error err => rfl
  | ok value =>
    simp only [outcome_ofExcept_ok, andThen_ok, outcome_bind,
      settleBy_eq hroots load again p.strictCallables (hfound value hresolve), outcome_pure]
    cases filters with
    | nil => rfl
    | cons f fs =>
      unfold applyFilters resolve
      simp only [outcome_bind, outcome_get, andThen_ok]
      cases hfilter : s.context.resolve e.host f.lookup with
      | error err => rfl
      | ok found =>
        simp only [outcome_ofExcept_ok, andThen_ok,
          ((hdrawn.resolve hroots hfilter).plain hroots).callable?_eq_none]
        rfl

/-- The name of another template is found in the data if it is not
fixed. -/
theorem templateNameBy_agree (load load' : TextLoader) (again again' : Runner) (strict : Bool)
    (name : TemplateName) :
    Agree roots (templateNameBy e load again strict name)
      (templateNameBy e load' again' strict name) := by
  cases name with
  | fixed name => exact .pure rfl
  | dynamic lookup =>
    refine .bind (finds_resolve hroots lookup) ?_
    rintro value _ ⟨rfl, hvalue⟩
    rw [settleBy_eq hroots load again strict hvalue, settleBy_eq hroots load' again' strict hvalue]
    exact .pure rfl

/-! ## Renderers side by side -/

variable {h h' : Handling} {again again' : Runner}
variable (hagain : ∀ p is indent, Agree roots (again p is indent) (again' p is indent))

include hagain

/-- A section with a value runs through parts of it. -/
theorem sectionTextBy_agree (p : Program) (s : SectionBody) {value : Value}
    (hvalue : value.FoundIn roots) (indent : String) :
    Agree roots (sectionTextBy e h.load again p s value indent)
      (sectionTextBy e h'.load again' p s value indent) := by
  have hplain : value.Plain := hvalue.plain hroots
  unfold sectionTextBy
  rw [hplain.callable?_eq_none]
  by_cases hempty : value.isEmpty = true
  · simp only [if_pos hempty]
    exact .pure rfl
  · simp only [if_neg hempty]
    exact Agree.forEach (hagain p s.body indent) fun element helement =>
      hvalue.part (hplain.hasPart_of_mem_elements e.host helement)

theorem parentBy_agree (p : Program) (name : TemplateName) (overrides : List (String × String))
    (indent : String) :
    Agree roots (parentBy e h.load again p name overrides indent)
      (parentBy e h'.load again' p name overrides indent) := by
  refine .bind (templateNameBy_agree hroots h.load h'.load again again' _ name) ?_
  rintro name _ rfl
  refine .bind (Agree.of_balanced (Balanced.onStore _)) ?_
  rintro found _ rfl
  cases found with
  | none => exact .pure rfl
  | some parent =>
    dsimp only
    split
    · exact hagain parent parent.body indent
    · exact Agree.between (fun _ hc => hc) (fun _ hc => hc) (hagain parent parent.body indent)

omit hroots in
theorem overriding_agree (block : BlockRef) :
    Agree roots (overriding again block) (overriding again' block) := by
  unfold overriding
  split
  · exact hagain block.program _ ""
  · exact .pure rfl

end Plainly

theorem write_agree {h h' : Handling} {again again' : Runner}
    (hroots : ∀ root ∈ roots, root.Plain) (hwrite : WritesFound e roots h.write)
    (hwrite' : WritesFound e roots h'.write) (p : Program) (lookup : Lookup)
    (filters : List Filter) (escape : Bool) :
    Agree roots (h.write again p lookup filters escape)
      (h'.write again' p lookup filters escape) := by
  rintro s _ ⟨rfl, hdrawn⟩
  have hfound : ∀ value, s.context.resolve e.host lookup = .ok value → value.FoundIn roots :=
    fun value hresolve => hdrawn.resolve hroots hresolve
  rw [hwrite again p lookup filters escape s hdrawn hfound,
    hwrite' again' p lookup filters escape s hdrawn hfound]
  refine ⟨?_, rfl, hdrawn⟩
  cases foundText e p s.context lookup filters escape with
  | error err => exact .error _
  | ok text => exact .ok rfl

mutual

theorem instrsBy_agree {h h' : Handling} {again again' : Runner}
    (hroots : ∀ root ∈ roots, root.Plain) (hwrite : WritesFound e roots h.write)
    (hwrite' : WritesFound e roots h'.write)
    (hagain : ∀ p is indent, Agree roots (again p is indent) (again' p is indent)) (p : Program)
    (indent : String) (is : List Instr) :
    Agree roots (instrsBy e h again p indent is) (instrsBy e h' again' p indent is) := by
  cases is with
  | nil => exact .pure rfl
  | cons i is =>
    exact .append (instrBy_agree hroots hwrite hwrite' hagain p indent i)
      (instrsBy_agree hroots hwrite hwrite' hagain p indent is)

theorem instrBy_agree {h h' : Handling} {again again' : Runner}
    (hroots : ∀ root ∈ roots, root.Plain) (hwrite : WritesFound e roots h.write)
    (hwrite' : WritesFound e roots h'.write)
    (hagain : ∀ p is indent, Agree roots (again p is indent) (again' p is indent)) (p : Program)
    (indent : String) (i : Instr) :
    Agree roots (instrBy e h again p indent i) (instrBy e h' again' p indent i) := by
  -- what sections and inverted sections do first
  have value_found (lookup : Lookup) (filters : List Filter) :
      Finds roots (do applyFilters e p.strictCallables (← resolve e lookup) filters) := by
    refine .bind (finds_resolve hroots lookup) ?_
    rintro value _ ⟨rfl, hvalue⟩
    exact finds_applyFilters hroots p.strictCallables hvalue filters
  cases i with
  | text value indented => exact .pure rfl
  | interpolate lookup filters escape indented =>
    refine .bind (write_agree hroots hwrite hwrite' p lookup filters escape) ?_
    rintro text _ rfl
    exact .pure rfl
  | enter lookup filters key =>
    simp only [instrBy, ← bind_assoc]
    refine .bind (value_found lookup filters) ?_
    rintro value _ ⟨rfl, hvalue⟩
    split
    · exact sectionTextBy_agree hroots hagain p _ hvalue indent
    · exact .pure rfl
  | inverted lookup filters body =>
    simp only [instrBy, ← bind_assoc]
    refine .bind (value_found lookup filters) ?_
    rintro value _ ⟨rfl, -⟩
    split
    · exact instrsBy_agree hroots hwrite hwrite' hagain p indent body
    · exact .pure rfl
  | insertPartial name captured =>
    refine .bind (templateNameBy_agree hroots h.load h'.load again again' _ name) ?_
    rintro name _ rfl
    refine .bind (Agree.of_balanced (Balanced.onStore _)) ?_
    rintro found _ rfl
    cases found with
    | none => exact .pure rfl
    | some inner => exact hagain inner inner.body _
  | extend name overrides => exact parentBy_agree hroots hagain p name overrides indent
  | block name default =>
    refine .bind (Agree.of_balanced Keeps.get) ?_
    rintro s _ rfl
    split
    · exact overriding_agree hagain _
    · exact instrsBy_agree hroots hwrite hwrite' hagain p indent default

end

/-- **Renderers that write what they find agree** over frames drawn from
plain values, however deep places nest. -/
theorem codeBy_agree {h h' : Handling} (hroots : ∀ root ∈ roots, root.Plain)
    (hwrite : WritesFound e roots h.write) (hwrite' : WritesFound e roots h'.write) (depth : Nat)
    (p : Program) (is : List Instr) (indent : String) :
    Agree roots (codeBy e h depth p is indent) (codeBy e h' depth p is indent) := by
  induction depth generalizing p is indent with
  | zero => exact .throw _
  | succ depth ih => exact instrsBy_agree hroots hwrite hwrite' ih p indent is

end Agreement

end Render

/-! ## Rendering -/

namespace Engine

variable {e : Engine} {data : Value}

/-- `render`, with the handling exchanged. Texts become programs as the
template itself and as what the loader gives for the names of partials and
parents, and nowhere else but in the handling. -/
def renderBy (e : Engine) (h : Render.Handling) (depth : Nat) (name : String) (data : Value) :
    ExceptT Stop (StateM Store) String := do
  let p ← working (e.template name)
  fun store =>
    let (result, s) := (Render.codeBy e h depth p p.body "").run.run ⟨e.contextFor data, store⟩
    (result, s.store)

/-- What the context of a render begins with: the data and the helpers. -/
def roots (e : Engine) (data : Value) : List Value := [data, Helpers.frame e.helpers]

theorem drawnFrom_contextFor (e : Engine) (data : Value) :
    (e.contextFor data).DrawnFrom (e.roots data) := by
  have hdata : data.FoundIn (e.roots data) := .root List.mem_cons_self
  have hhelpers : (Helpers.frame e.helpers).FoundIn (e.roots data) :=
    .root (List.mem_cons_of_mem _ List.mem_cons_self)
  have hempty : (Context.empty e.skipNull).DrawnFrom (e.roots data) := nofun
  unfold contextFor
  dsimp only
  split
  · split
    · exact hempty
    · exact hempty.push hhelpers
  · split
    · exact hempty.push hdata
    · exact (hempty.push hhelpers).push hdata

theorem plain_roots (hdata : data.Plain) (hhelpers : ∀ entry ∈ e.helpers, entry.2.Plain) :
    ∀ root ∈ e.roots data, root.Plain := by
  simp only [roots, List.forall_mem_cons]
  exact ⟨hdata, .helpers hhelpers, nofun⟩

/-- **Data is never taken for template text.** Over plain data and helpers a
render has the same outcome, text or error, and leaves the same store, if
the texts of procedures are loaded in any other way, such as never. And it
has the same outcome if variable tags are written in any way that writes
the escaped or plain text of a value found in the data or the helpers. -/
theorem outcome_renderBy (hdata : data.Plain) (hhelpers : ∀ entry ∈ e.helpers, entry.2.Plain)
    (load : Render.TextLoader) (depth : Nat) (name : String) (store : Store) :
    outcome (e.renderBy ⟨load, Render.writer e load⟩ depth name data) store =
        outcome (e.render depth name data) store ∧
      ∀ write, Render.WritesFound e (e.roots data) write →
        outcome (e.renderBy ⟨load, write⟩ depth name data) store =
          outcome (e.render depth name data) store := by
  have hroots := plain_roots hdata hhelpers
  have hown : Render.WritesFound e (e.roots data) (Render.Handling.own e).write :=
    Render.writesFound_writer hroots e.lambdaProgram
  have main : ∀ write, Render.WritesFound e (e.roots data) write →
      outcome (e.renderBy ⟨load, write⟩ depth name data) store =
        outcome (e.render depth name data) store := by
    intro write hwrite
    unfold renderBy render
    rw [outcome_bind, outcome_bind]
    rcases outcome (working (e.template name)) store with ⟨stop | p, store'⟩
    · rfl
    · rw [andThen_ok, andThen_ok]
      have hagree := Render.codeBy_agree (h := ⟨load, write⟩) hroots hwrite hown depth p p.body ""
      rw [Render.codeBy_own] at hagree
      obtain ⟨hresult, hstate, -⟩ :=
        hagree.result_eq (s := ⟨e.contextFor data, store'⟩) ⟨rfl, drawnFrom_contextFor e data⟩
      exact Prod.ext hresult (congrArg Render.State.store hstate)
  exact ⟨main _ (Render.writesFound_writer hroots load), main⟩

/-- An engine that is not told otherwise. -/
def standard (host : Host) (digest : String → String) (memo : Nat) : Engine :=
  { (EngineOptions.standard host digest).toEngineSettings with
    delimiters := none, pragmas := [], memo }

/-- A helper and an entry of the data with a tag in their texts. -/
theorem outcome_renderBy_of_tags :
    let e := { standard .inert id 0 with helpers := [("b", .str "\x7b\x7ba\x7d\x7d")] }
    let data := Value.map [("a", .str "\x7b\x7b#b\x7d\x7d")]
    let source := "\x7b\x7b&a\x7d\x7d, \x7b\x7b&b\x7d\x7d"
    let store := Store.ofFiles (.empty "" [])
    let never : Render.TextLoader := fun text _ => throw (.unknownTemplate text)
    data.Plain ∧ (∀ entry ∈ e.helpers, entry.2.Plain) ∧
      (outcome (e.render 1 source data) store).1.toOption =
        some "\x7b\x7b#b\x7d\x7d, \x7b\x7ba\x7d\x7d" ∧
      outcome (e.renderBy ⟨never, Render.writer e never⟩ 1 source data) store =
        outcome (e.render 1 source data) store := by
  intro e data source store never
  have hdata : data.Plain := .map (by simpa using .str _)
  have hhelpers : ∀ entry ∈ e.helpers, entry.2.Plain := by simpa [e] using .str _
  exact ⟨hdata, hhelpers, by decide +kernel,
    (outcome_renderBy hdata hhelpers never 1 source store).1⟩

end Engine

end Mustache
