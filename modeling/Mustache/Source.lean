import Mustache.Store
/-!
# Mustache — sources

A source has the text of a template and a key that stands for the text
where programs are told apart. The key of a file is a JSON object of its
path and some of its properties, as they were when the key was first
asked for; the text is read anew each time.
-/

namespace Mustache

namespace FileSource

/-- The names of the properties that a file can be asked for. -/
def propertyNames : List String :=
  ["size", "mtime", "atime", "ctime", "mode", "ino", "dev", "nlink", "uid", "gid"]

/-- Bits of a mode that tell a file from a folder. -/
def fileBits : Nat := 0o100000

/-- Bits of a mode that tell a folder from a file. -/
def folderBits : Nat := 0o040000

/-- A time as a number of seconds since the start of 1970; there is none
for a time before. -/
def secondsJson (seconds : Int) : Json := if seconds < 0 then .null else .int seconds

/-- A property of what stands at a path, under so many names. A tree of
files has one owner and one device; the time of the last change stands for
the other times. -/
def property (entry : FileEntry) (links : Nat) (name : String) : Json :=
  let size := match entry with
    | .file content _ _ => content.length
    | .folder => 4096
  let mode := match entry with
    | .file _ mode _ => fileBits + mode
    | .folder => folderBits + 0o755
  let modified := match entry with
    | .file _ _ modified => modified
    | .folder => 0
  if name = "size" then .int size
  else if name = "mtime" ∨ name = "atime" then secondsJson modified
  else if name = "ctime" then .int modified
  else if name = "mode" then .int mode
  else if name = "nlink" then .int links
  else if propertyNames.contains name then .int 0
  else .null

/-- The properties that are asked for, of what stands at a path. -/
def propertiesOf (entry : FileEntry) (links : Nat) (names : List String) : Entries Json :=
  Entries.ofPairs (names.map fun name => (name, property entry links name))

/-- The key of a file with its properties. -/
def keyText (path : String) (properties : Entries Json) : String :=
  (Json.obj (properties.foldl (fun fields p => Entries.insert fields p.1 p.2)
    [("fileName", .str path)])).text

/-- The text of the file at a path. -/
def readText (path : String) : OnStore String := do
  match (← get).files.readText path with
  | .ok text => return text
  | .error fault => throw (.runtime (.readSource path fault))

/-- The properties of a file source: those read before, or else as they
are now. -/
def readProperties (ref : Nat) : OnStore (Entries Json) := do
  let source ← OnStore.source ref
  match source.seen with
  | some seen => return seen
  | none =>
    let files := (← get).files
    match files.stat source.path with
    | .ok entry =>
      let seen := propertiesOf entry (files.links source.path) source.properties
      OnStore.setSource ref { source with seen := some seen }
      return seen
    | .error fault => throw (.runtime (.readSource source.path fault))

end FileSource

namespace Source

/-- The key of a source. -/
def key : Source → OnStore String
  | .given key _ => key
  | .file ref => do
    let source ← OnStore.source ref
    if source.properties.isEmpty then return FileSource.keyText source.path []
    else return FileSource.keyText source.path (← FileSource.readProperties ref)

/-- The text of a source. -/
def text : Source → OnStore String
  | .given _ text => text
  | .file ref => do FileSource.readText (← OnStore.source ref).path

end Source

end Mustache
