import Mustache.Error
import Mustache.Json
import Mustache.Pool
import Mustache.Program
/-!
# Mustache — the store

What lasts from one use of an engine to the next, and can be shared by
several engines: files, tables of templates, what has been read or
compiled before. Work that needs it may fail, and what was changed before
it failed stays changed.
-/

namespace Mustache

/-- A template file that gives a fingerprint in place of its text: its
path and some of its properties, which are read once. -/
structure FileSource where
  path : String
  properties : List String
  /-- The properties, once they have been read. -/
  seen : Option (Entries Json)

/-- Where the text of a template can be had, and a key that stands for
it. -/
inductive Source where
  /-- A file, by its position in the store. -/
  | file (ref : Nat)
  /-- Both are known, or known to fail. -/
  | given (key text : Except Error String)

/-- What a loader gives for the name of a template. -/
inductive Loaded where
  | text (text : String)
  | source (source : Source)

/-- What lasts. -/
structure Store where
  files : FileTree
  /-- Tables of templates that can be changed. -/
  tables : Pool (Entries String)
  /-- What loaders have taken from folders. -/
  readings : Pool (Entries Loaded)
  sources : Pool FileSource
  /-- Compiled templates in their stored form, by class name. -/
  caches : Pool (Entries String)
  /-- The programs each engine has at hand, by class name. -/
  memos : Pool (Entries Program)

namespace Store

/-- A store with nothing but files. -/
def ofFiles (files : FileTree) : Store := ⟨files, .empty, .empty, .empty, .empty, .empty⟩

end Store

/-- Work on the store that may fail. -/
abbrev OnStore (α : Type) := ExceptT Error (StateM Store) α

namespace OnStore

/-- A new table of templates. -/
def newTable (templates : Entries String) : OnStore Nat := do
  let store ← get
  let (ref, tables) := store.tables.add templates
  set { store with tables }
  return ref

/-- Replace a table of templates. -/
def setTable (ref : Nat) (templates : Entries String) : OnStore Unit :=
  modify fun store => { store with tables := store.tables.put ref templates }

/-- A table of templates. -/
def table (ref : Nat) : OnStore (Entries String) := do
  return ((← get).tables.get? ref).getD []

/-- A new table for what is taken from a folder. -/
def newReadings : OnStore Nat := do
  let store ← get
  let (ref, readings) := store.readings.add []
  set { store with readings }
  return ref

/-- What was taken from a folder before, under a name. -/
def reading? (ref : Nat) (name : String) : OnStore (Option Loaded) := do
  return Entries.get? (((← get).readings.get? ref).getD []) name

/-- Keep what was taken from a folder under a name. -/
def keepReading (ref : Nat) (name : String) (loaded : Loaded) : OnStore Unit :=
  modify fun store =>
    let readings := Entries.insert ((store.readings.get? ref).getD []) name loaded
    { store with readings := store.readings.put ref readings }

/-- A new file source. -/
def newSource (source : FileSource) : OnStore Nat := do
  let store ← get
  let (ref, sources) := store.sources.add source
  set { store with sources }
  return ref

/-- A file source. -/
def source (ref : Nat) : OnStore FileSource := do
  return ((← get).sources.get? ref).getD ⟨"", [], none⟩

/-- Replace a file source. -/
def setSource (ref : Nat) (source : FileSource) : OnStore Unit :=
  modify fun store => { store with sources := store.sources.put ref source }

/-- A new cache in memory. -/
def newCache : OnStore Nat := do
  let store ← get
  let (ref, caches) := store.caches.add []
  set { store with caches }
  return ref

/-- What a cache in memory holds. -/
def cache (ref : Nat) : OnStore (Entries String) := do
  return ((← get).caches.get? ref).getD []

/-- Put a stored form into a cache in memory. -/
def keepCached (ref : Nat) (key stored : String) : OnStore Unit :=
  modify fun store =>
    let entries := Entries.insert ((store.caches.get? ref).getD []) key stored
    { store with caches := store.caches.put ref entries }

/-- A new table of programs at hand. -/
def newMemo : OnStore Nat := do
  let store ← get
  let (ref, memos) := store.memos.add []
  set { store with memos }
  return ref

/-- The program at hand under a class name. -/
def memo? (ref : Nat) (name : String) : OnStore (Option Program) := do
  return Entries.get? (((← get).memos.get? ref).getD []) name

/-- Keep a program at hand under a class name. -/
def keepProgram (ref : Nat) (name : String) (program : Program) : OnStore Unit :=
  modify fun store =>
    let programs := Entries.insert ((store.memos.get? ref).getD []) name program
    { store with memos := store.memos.put ref programs }

end OnStore

end Mustache
