import Mustache.Datum
import Mustache.Engine
/-!
# Mustache — rendering

The instructions of a program are run against the context and give text.
A run may fetch other templates, so it works on the store as well.

The bodies of inverted sections and the defaults of blocks are parts of
the instruction that has them. Everything else that is run from inside a
program is reached by name: sections, overrides, partials, parents,
templates that procedures give. That nesting is bounded by a depth, and a
run that needs more is exhausted, which is not an error of the template.
-/

namespace Mustache

/-- Why a run does not end with a text. -/
inductive Stop where
  | failed (error : Error)
  | exhausted

namespace Render

/-- What a run works on. -/
structure State where
  context : Context
  store : Store

end Render

/-- Runs. What a run does to its state it does even if it stops. -/
abbrev Render (α : Type) := ExceptT Stop (StateM Render.State) α

namespace Render

/-- Stop with an error. -/
def fail {α : Type} (error : Error) : Render α := throw (.failed error)

/-- A result that was had without the state. -/
def ofExcept {α : Type} : Except Error α → Render α
  | .ok a => return a
  | .error e => fail e

/-- Work on the store. -/
def onStore {α : Type} (work : OnStore α) : Render α := do
  let s ← get
  let (result, store) := work.run.run s.store
  set { s with store }
  ofExcept result

/-- The error of a run as a result of it. -/
def attempt {α : Type} (run : Render α) : Render (Except Error α) :=
  tryCatch (do return .ok (← run)) fun
    | .failed e => return .error e
    | .exhausted => throw .exhausted

/-- A run after a change of the context, and whatever comes of it, another
change after it. -/
def between {α : Type} (enter leave : Context → Context) (run : Render α) : Render α := fun s =>
  let (result, after) := run.run.run { s with context := enter s.context }
  (result, { after with context := leave after.context })

/-- A run with a value as top frame. -/
def inFrame {α : Type} (value : Value) (run : Render α) : Render α :=
  between (·.push value) Context.pop run

/-- A run with overrides for blocks. -/
def withOverrides {α : Type} (table : Entries BlockRef) (run : Render α) : Render α :=
  between (·.pushOverrides table) Context.popOverrides run

/-- How instructions are run from another place: those of a program, with
an indent. -/
abbrev Runner := Program → List Instr → String → Render String

section

variable (e : Engine) (again : Runner)

/-- Run the body of a program. -/
def whole (p : Program) (indent : String) : Render String := again p p.body indent

/-- Render a text that starts with the delimiters asked for. -/
def given (text : String) (asked : Option Delimiters) : Render String := do
  whole again (← onStore (e.lambdaProgram text asked)) ""

/-! ## Values -/

/-- What a tag looks up. -/
def resolve (lookup : Lookup) : Render Value := do
  ofExcept ((← get).context.resolve e.host lookup)

/-- Put a value through filters. Each filter is looked up when its turn
comes. -/
def applyFilters (strict : Bool) : Value → List Filter → Render Value
  | value, [] => return value
  | value, f :: fs => do
    match (← resolve e f.lookup).callable? e.host strict with
    | none => fail (.unknownFilter f.name)
    | some ref => applyFilters strict (← ofExcept (e.host.call ref [value])) fs

/-- A value for a place in the text: what a procedure gives there is
rendered as a template. -/
def settle (strict : Bool) (value : Value) : Render Value := do
  match value.callable? e.host strict with
  | none => return value
  | some ref =>
    let result ← ofExcept (e.host.call ref [])
    return .str (← given e again (result.text e.host) none)

/-- The name of a template. -/
def templateName (strict : Bool) : TemplateName → Render String
  | .fixed name => return name
  | .dynamic lookup => do
    return (← settle e again strict (← resolve e lookup)).text e.host

/-- A text as an escaped variable writes it. -/
def escaped (p : Program) (text : String) : String :=
  match p.escaping, e.escape with
  | .html flags, _ => Entities.escape flags text
  | .custom, some escape => escape text
  | .custom, none => Entities.escape Entities.standard text

/-! ## Sections -/

/-- Carry out what a procedure does in a section. -/
def perform : Action → Render Value
  | .done result => ofExcept result
  | .render asked text next => do
    let result ← attempt (given e again text asked)
    perform (next result)

/-- Whether the opening delimiter of a section stands in a text. -/
def hasTag (s : SectionBody) (text : String) : Bool :=
  Text.occursIn ((s.delimiters.getD .standard).opening.toList) text.toList

/-- A section whose value is a procedure. What it gives is a template if it
has a tag. -/
def lambdaSection (s : SectionBody) (ref : Nat) : Render String := do
  let result ← perform e again (e.host.callInSection ref ⟨s.delimiters⟩ [.str s.source])
  let text := result.text e.host
  if hasTag s text then given e again text s.delimiters else return text

/-- Run a body once for each value, the value as top frame. -/
def forEach (body : Render String) : List Value → Render String
  | [] => return ""
  | value :: values => do
    let first ← inFrame value body
    let more ← forEach body values
    return first ++ more

/-- A section with a value. -/
def sectionText (p : Program) (s : SectionBody) (value : Value) (indent : String) : Render String :=
  match value.callable? e.host p.strictCallables with
  | some ref => lambdaSection e again s ref
  | none =>
    if value.isEmpty then return ""
    else forEach (again p s.body indent) ((value.elements? e.host).getD [value])

/-! ## Other templates -/

/-- The indent inside a partial. -/
def partialIndent (indent : String) (captured : Option String) : String :=
  captured.elim "" (indent ++ ·)

/-- The overrides in a parent tag, by block. -/
def overrideTable (p : Program) (overrides : List (String × String)) : Entries BlockRef :=
  Entries.ofPairs (overrides.map fun o => (o.1, ⟨p, o.2⟩))

/-- A parent with its overrides. -/
def parent (p : Program) (name : TemplateName) (overrides : List (String × String))
    (indent : String) : Render String := do
  let name ← templateName e again p.strictCallables name
  match ← onStore (e.partialProgram name) with
  | none => return ""
  | some parent =>
    if overrides.isEmpty then whole again parent indent
    else withOverrides (overrideTable p overrides) (whole again parent indent)

/-- An override of a block. Its lines are not indented. -/
def overriding (block : BlockRef) : Render String :=
  match Entries.get? block.program.blocks block.key with
  | some body => again block.program body ""
  | none => return ""

/-! ## Instructions -/

mutual

/-- Run instructions of a program, one after the other. -/
def instrs (p : Program) (indent : String) : List Instr → Render String
  | [] => return ""
  | i :: is => do
    let first ← instr p indent i
    let more ← instrs p indent is
    return first ++ more

/-- Run an instruction of a program. -/
def instr (p : Program) (indent : String) : Instr → Render String
  | .text value indented => return (if indented then indent else "") ++ value
  | .interpolate lookup filters escape indented => do
    let value ← settle e again p.strictCallables (← resolve e lookup)
    let value ← applyFilters e p.strictCallables value filters
    let text := value.text e.host
    return (if indented then indent else "") ++ (if escape then escaped e p text else text)
  | .enter lookup filters key => do
    let value ← applyFilters e p.strictCallables (← resolve e lookup) filters
    match Entries.get? p.sections key with
    | some s => sectionText e again p s value indent
    | none => return ""
  | .inverted lookup filters body => do
    let value ← applyFilters e p.strictCallables (← resolve e lookup) filters
    if value.isEmpty then instrs p indent body else return ""
  | .insertPartial name captured => do
    let name ← templateName e again p.strictCallables name
    match ← onStore (e.partialProgram name) with
    | some inner => whole again inner (partialIndent indent captured)
    | none => return ""
  | .extend name overrides => parent e again p name overrides indent
  | .block name default => do
    match (← get).context.override? name with
    | some block => overriding again block
    | none => instrs p indent default

end

end

/-- Run instructions, with at most so many places nested. -/
def code (e : Engine) : Nat → Runner
  | 0 => fun _ _ _ => throw .exhausted
  | depth + 1 => fun p is indent => instrs e (code e depth) p indent is

end Render

namespace Engine

/-- How deep places are nested at most, unless another bound is asked
for. -/
def standardDepth : Nat := 100000

/-- Run a program against data. -/
def runProgram (e : Engine) (depth : Nat) (p : Program) (data : Value) :
    ExceptT Stop (StateM Store) String := fun store =>
  let (result, s) := (Render.code e depth p p.body "").run.run ⟨e.contextFor data, store⟩
  (result, s.store)

/-- Work on the store as part of a run. -/
def working {α : Type} (work : OnStore α) : ExceptT Stop (StateM Store) α := fun store =>
  match work.run.run store with
  | (.ok a, store) => (.ok a, store)
  | (.error e, store) => (.error (.failed e), store)

/-- Render the template of a name against data. -/
def render (e : Engine) (depth : Nat) (name : String) (data : Value) :
    ExceptT Stop (StateM Store) String := do
  let p ← working (e.template name)
  e.runProgram depth p data

/-- Render the template of a name against typed data. -/
def renderDatum (e : Engine) (depth : Nat) (name : String) (data : Datum) :
    ExceptT Stop (StateM Store) String := do
  let p ← working (e.template name)
  let value ← working (liftM data.toValue)
  e.runProgram depth p value

end Engine

end Mustache
