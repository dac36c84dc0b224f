import Mustache.Cache
import Mustache.Context
import Mustache.Entities
import Mustache.Helpers
import Mustache.Loader
import Mustache.Program.Compile
/-!
# Mustache — engines

An engine fetches templates by name, compiles them and keeps the
programs: at hand for itself, and in stored form in its cache. Both go by
the class name of a program, a digest of everything the program depends
on: the settings, the delimiters, and the text of the template or the key
of its source.
-/

namespace Mustache

/-- The settings of an engine that are taken as they are. -/
structure EngineSettings where
  /-- What objects and procedures in the data do. -/
  host : Host
  /-- The digest that names programs and their parts. -/
  digest : String → String
  /-- What class names begin with. -/
  classPrefix : String
  cache : Cache
  /-- Whether the cache also takes what procedures give as templates. -/
  cacheLambdas : Bool
  loader : Loader
  /-- The loader of partials; without it the loader of templates serves, if
  it serves for partials at all. -/
  partials : Option Loader
  helpers : Helpers
  /-- How texts are escaped, in place of HTML. -/
  escape : Option (String → String)
  entityFlags : UInt32
  charset : String
  /-- Whether pairs of an object and a method name are not callable. -/
  strictCallables : Bool
  /-- Whether a name that holds null is passed over. -/
  skipNull : Bool

/-- What an engine is asked to be. -/
structure EngineOptions extends EngineSettings where
  delimiters : Option String
  pragmas : List String
  /-- The partials to start with. -/
  partialTexts : Option (Entries String)

namespace EngineOptions

/-- The options of an engine that is not told otherwise. -/
def standard (host : Host) (digest : String → String) : EngineOptions where
  host := host
  digest := digest
  classPrefix := "__Stache_"
  cache := .disabled
  cacheLambdas := false
  loader := .verbatim
  partials := none
  helpers := []
  escape := none
  entityFlags := Entities.standard
  charset := "UTF-8"
  strictCallables := true
  skipNull := false
  delimiters := none
  pragmas := []
  partialTexts := none

/-- The only character set there is, under its two names. -/
def isKnownCharset (name : String) : Bool :=
  let upper := name.map Char.toUpper
  upper = "UTF-8" || upper = "UTF8"

end EngineOptions

/-- An engine. Standard delimiters are kept as none, and pragmas each once
and in order. -/
structure Engine extends EngineSettings where
  delimiters : Option Delimiters
  pragmas : List Pragma
  /-- Where in the store its programs are. -/
  memo : Nat

namespace Engine

/-- Replace the partials. Without a loader for them one is made; a loader
whose templates cannot be changed is an error. -/
def setPartials (e : Engine) (templates : Entries String) : OnStore Engine :=
  match e.partials with
  | none => do return { e with partials := some (← Loader.newTable templates) }
  | some loader => do
    loader.setTemplates templates
    return e

/-- The engine with another loader for partials. -/
def setPartialsLoader (e : Engine) (loader : Loader) : Engine := { e with partials := some loader }

/-- The engine with one more helper. -/
def addHelper (e : Engine) (name : String) (value : Value) : Engine :=
  { e with helpers := Entries.insert e.helpers name value }

/-- A helper, and the engine without it. -/
def removeHelper (e : Engine) (name : String) : Except Error (Value × Engine) :=
  (Helpers.remove e.helpers name).map fun r => (r.1, { e with helpers := r.2 })

/-- The delimiters and pragmas that options ask for, once the other options
are found good. -/
def check (options : EngineOptions) : Except Error (Option Delimiters × List Pragma) := do
  if options.classPrefix = "" then throw (.invalidArgument .emptyClassPrefix)
  if !EngineOptions.isKnownCharset options.charset then
    throw (.invalidArgument (.charset options.charset))
  let delimiters ← options.delimiters.mapM Delimiters.ofText
  let pragmas ← options.pragmas.mapM Pragma.ofName
  return (Delimiters.unlessStandard delimiters, Pragma.normal pragmas)

/-- The engine that options ask for. -/
def ofOptions (options : EngineOptions) : OnStore Engine := do
  let (delimiters, pragmas) ← check options
  let e : Engine :=
    { options.toEngineSettings with delimiters, pragmas, memo := ← OnStore.newMemo }
  match options.partialTexts with
  | none => return e
  | some templates => e.setPartials templates

/-! ## Class names -/

/-- The version of the library. Programs of different versions have
different class names. -/
def version : String := "0.1.0"

/-- The delimiters that a template starts with: those that are asked for,
or else those of the engine. -/
def startingDelimiters (e : Engine) (asked : Option Delimiters) : Delimiters :=
  (asked.or e.delimiters).getD .standard

/-- Everything that the program of a template depends on, the text of the
template aside. -/
def settingsJson (e : Engine) (key : String) (asked : Option Delimiters) : Json :=
  .obj
    [("charset", .str e.charset),
     ("delimiters", .str (e.startingDelimiters asked).text),
     ("entityFlags", .int e.entityFlags.toNat),
     ("escape", .str (if e.escape.isSome then "custom" else "default")),
     ("key", .str key),
     ("pragmas", .arr (e.pragmas.map fun p => .str p.name)),
     ("strictCallables", .bool e.strictCallables),
     ("version", .str version)]

/-- What is digested for a template that is given as text. -/
def textFingerprint (e : Engine) (text : String) (asked : Option Delimiters) : String :=
  (e.settingsJson "source" asked).text ++ "\n" ++ text

/-- What is digested for a template that is given by a source with this
key. -/
def sourceFingerprint (e : Engine) (key : String) (asked : Option Delimiters) : String :=
  (e.settingsJson key asked).text

/-- The class name for a fingerprint. -/
def classNameOf (e : Engine) (fingerprint : String) : String :=
  e.classPrefix ++ e.digest fingerprint

/-- The class name of a template. -/
def className (e : Engine) (loaded : Loaded) (asked : Option Delimiters) : OnStore String :=
  match loaded with
  | .text text => return e.classNameOf (e.textFingerprint text asked)
  | .source source => do return e.classNameOf (e.sourceFingerprint (← source.key) asked)

/-! ## Programs -/

/-- The settings that shape the programs of an engine. -/
def compileSettings (e : Engine) : CompileSettings :=
  ⟨e.escape.isSome, e.strictCallables, e.entityFlags⟩

/-- The program of a text. -/
def compile (e : Engine) (name source : String) (asked : Option Delimiters) :
    Except Error Program := do
  let tokens ← Token.scan (e.startingDelimiters asked) source
  let tree ← Tree.ofTokens e.pragmas tokens
  Program.compile e.digest e.pragmas e.compileSettings name source tree.nodes

/-- The text of a template. -/
def loadedText : Loaded → OnStore String
  | .text text => return text
  | .source source => source.text

/-- Compile a template and store its program in a cache. -/
def compileAndSave (e : Engine) (loaded : Loaded) (asked : Option Delimiters) (name : String)
    (cache : Cache) : OnStore Program := do
  let program ← e.compile name (← loadedText loaded) asked
  cache.save name program.store
  return program

/-- The program of a template that is not at hand: the one in the cache if
it can be read, or else a new one. -/
def fetch (e : Engine) (loaded : Loaded) (asked : Option Delimiters) (name : String)
    (cache : Cache) : OnStore Program := do
  match (← cache.load name).bind Program.restore? with
  | some program => return program
  | none => e.compileAndSave loaded asked name cache

/-- The program of a template. -/
def program (e : Engine) (loaded : Loaded) (asked : Option Delimiters) (cache : Cache) :
    OnStore Program := do
  let name ← e.className loaded asked
  match ← OnStore.memo? e.memo name with
  | some program => return program
  | none =>
    let program ← e.fetch loaded asked name cache
    OnStore.keepProgram e.memo name program
    return program

/-- The program of a template by name. -/
def template (e : Engine) (name : String) : OnStore Program := do
  e.program (← e.loader.load name) none e.cache

/-- The loader that partials come from. -/
def partialLoader? (e : Engine) : Option Loader :=
  match e.partials with
  | some loader => some loader
  | none => if e.loader.servesPartials then some e.loader else none

/-- What a loader gives for a name, if it knows the name. -/
def loadKnown (loader : Loader) (name : String) : OnStore (Option Loaded) :=
  tryCatch (do return some (← loader.load name)) fun
    | .unknownTemplate _ => return none
    | e => throw e

/-- The program of a partial by name. There need not be one. -/
def partialProgram (e : Engine) (name : String) : OnStore (Option Program) := do
  match e.partialLoader? with
  | none => return none
  | some loader =>
    match ← loadKnown loader name with
    | none => return none
    | some loaded => return some (← e.program loaded none e.cache)

/-- The cache for what procedures give as templates. -/
def lambdaCache (e : Engine) : Cache := if e.cacheLambdas then e.cache else .disabled

/-- The program of a text that a procedure gives. -/
def lambdaProgram (e : Engine) (text : String) (asked : Option Delimiters) : OnStore Program :=
  e.program (.text text) (Delimiters.unlessStandard asked) e.lambdaCache

/-! ## The context to start from -/

/-- The context in which a template is rendered against data: the helpers,
if there are any, and above them the data, unless it is empty. -/
def contextFor (e : Engine) (data : Value) : Context :=
  let base := Context.empty e.skipNull
  let base := if e.helpers.isEmpty then base else base.push (Helpers.frame e.helpers)
  if data.isEmpty then base else base.push data

end Engine

end Mustache
