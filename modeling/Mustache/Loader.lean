import Mustache.Loader.Inline
import Mustache.Source
/-!
# Mustache — loaders

A loader finds the template of a name. It fails with an unknown template
when there is none, and only then do others that stand behind it get
their turn.
-/

namespace Mustache

/-- A folder of templates: the file of a name is the name with an
extension, and what was found once is kept. -/
structure TemplateFolder where
  base : String
  /-- With its dot; there is none if it is empty. -/
  extension : String
  /-- Where in the store the findings are. -/
  readings : Nat

namespace TemplateFolder

/-- The extension of template files, unless another is asked for. -/
def standardExtension : String := ".mustache"

/-- An extension as it is asked for, dots before it or not. -/
def extensionOf (asked : String) : String :=
  match asked.toList.dropWhile (· = '.') with
  | [] => ""
  | cs => String.ofList ('.' :: cs)

/-- The folder at a path, opened for templates. -/
def openAt (path extension : String) : OnStore TemplateFolder := do
  let files := (← get).files
  if !files.isFolder path then throw (.runtime (.notFolder path))
  match files.resolve path with
  | .ok place =>
    return ⟨files.pathOf place, extension, ← OnStore.newReadings⟩
  | .error _ => throw (.runtime (.notFolder path))

/-- The path of the template of a name. -/
def fileName (folder : TemplateFolder) (name : String) : String :=
  let path := folder.base ++ "/" ++ name
  if path.endsWith folder.extension then path else path ++ folder.extension

/-- The path of the template of a name, if something is there. -/
def find (folder : TemplateFolder) (name : String) : OnStore String := do
  let path := folder.fileName name
  if (← get).files.present path then return path else throw (.unknownTemplate name)

/-- What was found for a name before, or else what `fetch` makes of its
path. -/
def remembered (folder : TemplateFolder) (name : String) (fetch : String → OnStore Loaded) :
    OnStore Loaded := do
  match ← OnStore.reading? folder.readings name with
  | some loaded => return loaded
  | none =>
    let loaded ← fetch (← folder.find name)
    OnStore.keepReading folder.readings name loaded
    return loaded

end TemplateFolder

/-- A way to find templates. -/
inductive Loader where
  /-- The name is itself the template. -/
  | verbatim
  /-- A table in the store, which can be changed. -/
  | table (ref : Nat)
  /-- A table that stays as it is. -/
  | fixed (templates : Entries String)
  /-- The first of several that knows the name. -/
  | cascade (loaders : List Loader)
  /-- The texts of files in a folder. -/
  | folder (place : TemplateFolder)
  /-- The files in a folder as sources, with the properties that belong to
  their keys. -/
  | sources (place : TemplateFolder) (properties : List String)
  /-- Whatever a function gives. -/
  | given (load : String → Except Error Loaded)

namespace Loader

instance : Inhabited Loader := ⟨.verbatim⟩

/-- A new loader with a table that can be changed. -/
def newTable (templates : Entries String) : OnStore Loader :=
  return .table (← OnStore.newTable templates)

/-- The loader of the templates in a file, from an offset on. -/
def ofInlineFile (path : String) (offset : Nat) : OnStore Loader := do
  if !(← get).files.isFile path then throw (.invalidArgument .inlineFile)
  let text ← FileSource.readText path
  match Text.dropBytes? offset text.toList with
  | some rest => return .fixed (Inline.templates (String.ofList rest))
  | none => throw (.invalidArgument .inlineOffset)

/-- The properties that belong to the keys of sources, unless others are
asked for. -/
def standardProperties : List String := ["size", "mtime"]

/-- The loader of the files in a folder as sources. -/
def ofSources (folder : TemplateFolder) (properties : List String) : Except Error Loader :=
  match properties.find? fun name => !FileSource.propertyNames.contains name with
  | some name => .error (.invalidArgument (.statProperty name))
  | none => .ok (.sources folder properties)

/-- Whether the templates of a loader can be changed. -/
def isMutable : Loader → Bool
  | .table _ => true
  | _ => false

/-- Whether a loader also serves for partials. One that takes every name
for a template does not. -/
def servesPartials : Loader → Bool
  | .verbatim => false
  | _ => true

/-- The template of a name in a table. -/
def inTable (templates : Entries String) (name : String) : OnStore Loaded :=
  match Entries.get? templates name with
  | some text => return .text text
  | none => throw (.unknownTemplate name)

/-- The first result that is not an unknown template. -/
def firstKnown (name : String) : List (OnStore Loaded) → OnStore Loaded
  | [] => throw (.unknownTemplate name)
  | load :: loads => tryCatch load fun
    | .unknownTemplate _ => firstKnown name loads
    | e => throw e

mutual

/-- The template of a name. -/
def load : Loader → String → OnStore Loaded
  | .verbatim, name => return .text name
  | .table ref, name => do inTable (← OnStore.table ref) name
  | .fixed templates, name => inTable templates name
  | .cascade loaders, name => firstKnown name (loads loaders name)
  | .folder place, name =>
    place.remembered name fun path => return .text (← FileSource.readText path)
  | .sources place properties, name =>
    place.remembered name fun path =>
      return .source (.file (← OnStore.newSource ⟨path, properties, none⟩))
  | .given load, name => load name

/-- What each of several loaders gives for a name. -/
def loads : List Loader → String → List (OnStore Loaded)
  | [], _ => []
  | loader :: loaders, name => load loader name :: loads loaders name

end

/-- Replace all templates of a loader. -/
def setTemplates (loader : Loader) (templates : Entries String) : OnStore Unit :=
  match loader with
  | .table ref => OnStore.setTable ref templates
  | _ => throw (.runtime .immutableLoader)

/-- Put one template into a loader. -/
def setTemplate (loader : Loader) (name text : String) : OnStore Unit :=
  match loader with
  | .table ref => do OnStore.setTable ref (Entries.insert (← OnStore.table ref) name text)
  | _ => throw (.runtime .immutableLoader)

end Loader

end Mustache
