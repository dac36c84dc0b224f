import Mustache.Store
/-!
# Mustache — caches

A cache keeps programs in their stored form under class names, for other
engines and other times.
-/

namespace Mustache

/-- A place for stored programs. -/
inductive Cache where
  /-- It keeps nothing. -/
  | disabled
  /-- A table in the store. -/
  | memory (ref : Nat)
  /-- A file for each class name in a folder, with the given permissions. -/
  | folder (path : String) (mode : Nat)
  /-- Functions that give and take stored programs. -/
  | given (load : String → Except Error (Option String))
      (save : String → String → Except Error Unit)

namespace Cache

/-- The permissions of files in a cache, unless others are asked for. -/
def standardMode : Nat := 0o644

/-- The file of a class name. -/
def fileName (path key : String) : String := FileTree.join path (key ++ ".json")

/-- The program stored under a class name. -/
def load : Cache → String → OnStore (Option String)
  | .disabled, _ => return none
  | .memory ref, key => return Entries.get? (← OnStore.cache ref) key
  | .folder path _, key => do
    let files := (← get).files
    let name := fileName path key
    if !files.isFile name then return none
    match files.readText name with
    | .ok text => return some text
    | .error fault => throw (.runtime (.readEntry name fault))
  | .given load _, key => load key

/-- Make the folder that a file lies in, if it is not there. -/
def makeParent (name : String) : OnStore Unit := do
  let store ← get
  let parent := FileTree.parentOf name
  if store.files.isFolder parent then return
  match store.files.makeFolders parent with
  | .ok files => set { store with files }
  | .error fault => throw (.runtime (.createFolder parent fault))

/-- Write a file into a folder that is there. -/
def writeFile (name stored : String) (mode : Nat) : OnStore Unit := do
  let store ← get
  match store.files.write name (Text.bytesOf stored) mode 0 with
  | .ok files => set { store with files }
  | .error fault => throw (.runtime (.writeEntry name fault))

/-- Store a program under a class name. -/
def save : Cache → String → String → OnStore Unit
  | .disabled, _, _ => return
  | .memory ref, key, stored => OnStore.keepCached ref key stored
  | .folder path mode, key, stored => do
    let name := fileName path key
    makeParent name
    writeFile name stored mode
  | .given _ save, key, stored => save key stored

end Cache

end Mustache
