import Mustache.Json.Draft
import Mustache.Render
import Mustache.Sha256
/-!
# Mustache — the command line

One template file is rendered against the data in a JSON file, with the
partials in a folder. Everything but the reading of the files is decided
here: what the arguments ask for, and what comes of it.
-/

namespace Mustache

namespace CommandLine

/-- What is to be rendered. -/
structure Job where
  template : String
  data : Option String
  partials : Option String
  pragmas : List String
  deriving Repr

/-- What the arguments ask for. -/
inductive Request where
  | help
  | version
  | render (job : Job)
  deriving Repr

/-! ## Arguments -/

/-- An option with a value. -/
inductive Flag where
  | data
  | partials
  | pragma
  deriving DecidableEq, Repr

namespace Flag

/-- The flag of a long name. -/
def ofName? (name : String) : Option Flag :=
  if name = "data" then some .data
  else if name = "partials" then some .partials
  else if name = "pragma" then some .pragma
  else none

end Flag

/-- The arguments read so far. -/
structure Reading where
  template : Option String
  data : Option String
  partials : Option String
  pragmas : List String

namespace Reading

def empty : Reading := ⟨none, none, none, []⟩

/-- A path that is given once, and is not empty. -/
def once (before : Option String) (value : String) : Option (Option String) :=
  if before.isSome || value = "" then none else some (some value)

/-- Take the value of a flag. -/
def take (r : Reading) (flag : Flag) (value : String) : Option Reading :=
  match flag with
  | .data => (once r.data value).map fun data => { r with data }
  | .partials => (once r.partials value).map fun partials => { r with partials }
  | .pragma => some { r with pragmas := r.pragmas ++ [value] }

/-- Take an argument that is no option. -/
def takePlain (r : Reading) (value : String) : Option Reading :=
  (once r.template value).map fun template => { r with template }

/-- The request, once all arguments have been read. -/
def finish (r : Reading) : Option Request :=
  r.template.map fun template => .render ⟨template, r.data, r.partials, r.pragmas⟩

end Reading

/-- What kind of argument a text is. -/
inductive Argument where
  /-- Two hyphens, after which nothing is an option. -/
  | endOfOptions
  /-- An option with a long name, and its value if it comes with one. -/
  | long (name : String) (value : Option String)
  /-- Options of one letter, the first of which is given. -/
  | short (letter : Char)
  | plain (text : String)

namespace Argument

/-- A long option cut at its first equals sign. -/
def ofLong (cs : List Char) : Argument :=
  match Text.cutAt? ['='] cs with
  | some (name, value) => .long (String.ofList name) (some (String.ofList value))
  | none => .long (String.ofList cs) none

/-- The kind of an argument. A single hyphen is no option. -/
def ofText (text : String) : Argument :=
  match text.toList with
  | ['-', '-'] => .endOfOptions
  | '-' :: '-' :: cs => ofLong cs
  | '-' :: c :: _ => .short c
  | _ => .plain text

end Argument

/-- Read arguments after the end of options. -/
def readPlain (r : Reading) : List String → Option Request
  | [] => r.finish
  | text :: texts => (r.takePlain text).bind fun r => readPlain r texts

/-- Read arguments, where a flag may be waiting for its value. Asking for
help or for the version ends the reading; an argument that is not
understood before does too, and then there is no request. -/
def read (r : Reading) (waiting : Option Flag) : List String → Option Request
  | [] => if waiting.isSome then none else r.finish
  | text :: texts =>
    match Argument.ofText text, waiting with
    | .plain value, some flag => (r.take flag value).bind fun r => read r none texts
    | .plain value, none => (r.takePlain value).bind fun r => read r none texts
    | _, some _ => none
    | .endOfOptions, none => readPlain r texts
    | .short c, none =>
      if c = 'h' then some .help else if c = 'V' then some .version else none
    | .long name (some value), none =>
      (Flag.ofName? name).bind fun flag => (r.take flag value).bind fun r => read r none texts
    | .long name none, none =>
      if name = "help" then some .help
      else if name = "version" then some .version
      else (Flag.ofName? name).bind fun flag => read r (some flag) texts

/-- What arguments ask for, if they can be understood. -/
def Request.ofArguments? (args : List String) : Option Request := read .empty none args

/-! ## Texts -/

/-- How the program is called. -/
def usage : String := "Usage: stache [OPTIONS] <TEMPLATE>"

/-- The help that is asked for, line by line. -/
def helpLines : List String :=
  ["Render a Mustache template to stdout",
   "",
   usage,
   "",
   "Arguments:",
   "  <TEMPLATE>  Template file to render",
   "",
   "Options:",
   "      --data <DATA>          JSON file with the data to render against",
   "      --partials <PARTIALS>  Directory holding `<name>.mustache` partials",
   "      --pragma <NAME>        Pragma enabled for every template, e.g. FILTERS. Repeatable",
   "  -h, --help                 Print help",
   "  -V, --version              Print version"]

/-- The help that is asked for. -/
def helpText : String := String.join (helpLines.map (· ++ "\n"))

/-- The version that is asked for. -/
def versionText : String := "stache " ++ Engine.version ++ "\n"

/-! ## Running -/

/-- Why nothing is rendered. -/
inductive Trouble where
  | usage
  | readingTemplate (path : String)
  | readingData (path : String)
  | parsingData (path : String)
  | failed (error : Error)
  | exhausted

namespace Trouble

/-- The code that the program ends with. -/
def code : Trouble → Nat
  | .usage => 2
  | _ => 1

/-- What the program says. -/
def message : Trouble → String
  | .usage => CommandLine.usage
  | .readingTemplate path => "Error: reading template " ++ path
  | .readingData path => "Error: reading data " ++ path
  | .parsingData path => "Error: parsing data " ++ path
  | .failed error => "Error: " ++ error.message
  | .exhausted => "Error: templates are nested too deeply"

end Trouble

/-- The text of a file. -/
def readFile (files : FileTree) (path : String) (trouble : Trouble) : Except Trouble String :=
  match files.readText path with
  | .ok text => .ok text
  | .error _ => .error trouble

/-- The data of a job; null if no file is given. -/
def readData (files : FileTree) : Option String → Except Trouble Json
  | none => .ok .null
  | some path => do
    let text ← readFile files path (.readingData path)
    match Json.ofText? text with
    | some data => return data
    | none => .error (.parsingData path)

/-- The engine of a job. -/
def engineFor (job : Job) : OnStore Engine := do
  let partials ← job.partials.mapM fun path => do
    return Loader.folder (← TemplateFolder.openAt path TemplateFolder.standardExtension)
  let options := EngineOptions.standard .inert Sha256.ofText
  Engine.ofOptions { options with partials, pragmas := job.pragmas }

/-- Render a template against data. -/
def renderText (files : FileTree) (job : Job) (template : String) (data : Json) :
    Except Trouble String :=
  let work : ExceptT Stop (StateM Store) String := do
    let e ← Engine.working (engineFor job)
    e.renderDatum Engine.standardDepth template (Datum.ofJson data)
  match (work.run.run (.ofFiles files)).1 with
  | .ok text => .ok text
  | .error (.failed e) => .error (.failed e)
  | .error .exhausted => .error .exhausted

/-- What comes of arguments: the text to be written, or why there is none. -/
def run (files : FileTree) (args : List String) : Except Trouble String :=
  match Request.ofArguments? args with
  | none => .error .usage
  | some .help => .ok helpText
  | some .version => .ok versionText
  | some (.render job) => do
    let template ← readFile files job.template (.readingTemplate job.template)
    let data ← readData files job.data
    renderText files job template data

end CommandLine

end Mustache
