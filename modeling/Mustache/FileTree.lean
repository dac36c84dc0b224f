import Mustache.Text.Blank
import Mustache.Text.Search
import Mustache.Text.Utf8
/-!
# Mustache — a tree of files

Templates, and the compiled forms of templates, can live in files. The
tree holds what there is below one root folder, under the list of names
that leads to it. A path is a text; resolving it walks down name by name,
and each name asks that what it starts from is there and is a folder.
-/

namespace Mustache

/-- Why a file cannot be used. -/
inductive FileFault where
  | missing
  | present
  | notFolder
  | isFolder
  | nameTooLong
  | badName
  | notText
  deriving DecidableEq, Repr

namespace FileFault

/-- The words for it. -/
def message : FileFault → String
  | .missing => "No such file or directory (os error 2)"
  | .present => "File exists (os error 17)"
  | .notFolder => "Not a directory (os error 20)"
  | .isFolder => "Is a directory (os error 21)"
  | .nameTooLong => "File name too long (os error 36)"
  | .badName => "file name contained an unexpected NUL byte"
  | .notText => "stream did not contain valid UTF-8"

end FileFault

/-- A folder, or a file with its bytes, its permission bits and the second
in which it was last written, counted from the start of 1970. -/
inductive FileEntry where
  | folder
  | file (content : List UInt8) (mode : Nat) (modified : Int)

/-- The files below a root folder. -/
structure FileTree where
  /-- The path of the root folder, without a slash at its end. -/
  root : String
  /-- The place that paths which do not begin at the root start from. -/
  working : List String
  /-- What there is, by the names that lead to it. -/
  entries : List (List String × FileEntry)

namespace FileTree

/-- A tree with nothing in it. -/
def empty (root : String) (working : List String) : FileTree := ⟨root, working, []⟩

/-- The names a text consists of, between slashes. -/
def namesOf (path : String) : List String :=
  ((Text.splitWhere (· = '/') path.toList).map String.ofList).filter fun s => s ≠ "" ∧ s ≠ "."

/-- The names that lead from the root to the place a path speaks of, `..`
not yet followed. -/
def stepsOf (tree : FileTree) (path : String) : List String :=
  match Text.after? tree.root.toList path.toList with
  | some [] => []
  | some ('/' :: rest) => namesOf (String.ofList rest)
  | _ => tree.working ++ namesOf path

/-- What stands at a place. -/
def entryAt? (tree : FileTree) (place : List String) : Option FileEntry :=
  if place.isEmpty then some .folder else tree.entries.lookup place

/-- Follow names downward from a place. The last name may lead to
nothing. -/
def walk (tree : FileTree) : (place : List String) → List String → Except FileFault (List String)
  | place, [] => .ok place
  | place, step :: steps =>
    match tree.entryAt? place with
    | none => .error .missing
    | some (.file ..) => .error .notFolder
    | some .folder =>
      if step = ".." then
        if place.isEmpty then .error .missing else tree.walk place.dropLast steps
      else if step.utf8ByteSize > 255 then .error .nameTooLong
      else tree.walk (place ++ [step]) steps

/-- The place that a path leads to. -/
def resolve (tree : FileTree) (path : String) : Except FileFault (List String) :=
  if path = "" then .error .missing
  else if path.contains '\x00' then .error .badName
  else tree.walk [] (tree.stepsOf path)

/-- A path that ends in a slash or a dot speaks of a folder. -/
def asksFolder (path : String) : Bool := path.endsWith "/" || path.endsWith "/."

/-- What a path leads to. -/
def stat (tree : FileTree) (path : String) : Except FileFault FileEntry := do
  let place ← tree.resolve path
  match tree.entryAt? place with
  | none => .error .missing
  | some .folder => .ok .folder
  | some (.file content mode modified) =>
    if asksFolder path then .error .notFolder else .ok (.file content mode modified)

/-- Whether a path leads to anything. -/
def present (tree : FileTree) (path : String) : Bool :=
  match tree.stat path with
  | .ok _ => true
  | .error _ => false

/-- Whether a path leads to a folder. -/
def isFolder (tree : FileTree) (path : String) : Bool :=
  match tree.stat path with
  | .ok .folder => true
  | _ => false

/-- Whether a path leads to a file. -/
def isFile (tree : FileTree) (path : String) : Bool :=
  match tree.stat path with
  | .ok (.file ..) => true
  | _ => false

/-- The text of the file at a path. -/
def readText (tree : FileTree) (path : String) : Except FileFault String := do
  match ← tree.stat path with
  | .folder => .error .isFolder
  | .file content _ _ =>
    match Text.decode? content with
    | some text => .ok text
    | none => .error .notText

/-- The one path of a place that has no detour. -/
def pathOf (tree : FileTree) (place : List String) : String :=
  place.foldl (fun path name => path ++ "/" ++ name) tree.root

/-- Put an entry at a place. -/
def put (tree : FileTree) (place : List String) (entry : FileEntry) : FileTree :=
  { tree with entries := (place, entry) :: tree.entries.filter fun e => e.1 ≠ place }

/-- The tree without what stands at a place. -/
def drop (tree : FileTree) (place : List String) : FileTree :=
  { tree with entries := tree.entries.filter fun e => e.1 ≠ place }

/-- Make a folder where nothing stands. -/
def makeFolderAt (tree : FileTree) (steps : List String) : Except FileFault FileTree := do
  let place ← tree.walk [] steps
  match tree.entryAt? place with
  | some _ => .error .present
  | none => .ok (tree.put place .folder)

/-- Whether steps lead to a folder. -/
def isFolderAt (tree : FileTree) (steps : List String) : Bool :=
  match tree.walk [] steps with
  | .ok place =>
    match tree.entryAt? place with
    | some .folder => true
    | _ => false
  | .error _ => false

/-- Make a folder and, where they are missing, the folders on the way to
it; the steps are given last one first. -/
def makeFoldersBack (tree : FileTree) : (back : List String) → Except FileFault FileTree
  | [] => .ok tree
  | step :: back =>
    let steps := (step :: back).reverse
    match tree.makeFolderAt steps with
    | .ok made => .ok made
    | .error .missing => do
      let tree ← tree.makeFoldersBack back
      match tree.makeFolderAt steps with
      | .ok made => .ok made
      | .error fault => if tree.isFolderAt steps then .ok tree else .error fault
    | .error fault => if tree.isFolderAt steps then .ok tree else .error fault

/-- Make a folder and the folders on the way to it. -/
def makeFolders (tree : FileTree) (path : String) : Except FileFault FileTree :=
  if path.contains '\x00' then .error .badName
  else tree.makeFoldersBack (tree.stepsOf path).reverse

/-- Write a file, in place of an earlier one. -/
def write (tree : FileTree) (path : String) (content : List UInt8) (mode : Nat) (modified : Int) :
    Except FileFault FileTree := do
  let place ← tree.resolve path
  match tree.entryAt? place with
  | some .folder => .error .isFolder
  | _ =>
    if asksFolder path then .error .isFolder
    else .ok (tree.put place (.file content mode modified))

/-- Remove a file. -/
def remove (tree : FileTree) (path : String) : Except FileFault FileTree := do
  match ← tree.stat path with
  | .folder => .error .isFolder
  | .file .. => .ok (tree.drop (← tree.resolve path))

/-- The names in a folder, in ascending order. -/
def list (tree : FileTree) (path : String) : List String :=
  match tree.resolve path with
  | .ok place =>
    (tree.entries.filterMap fun e =>
      if e.1.length = place.length + 1 ∧ e.1.dropLast = place then e.1.getLast? else none).mergeSort
      fun a b => !decide (b < a)
  | .error _ => []

/-- How many names stand for what a path leads to: one for a file; for a
folder its own, its name for itself, and that of each folder in it for the
folder above. -/
def links (tree : FileTree) (path : String) : Nat :=
  match tree.resolve path with
  | .ok place =>
    match tree.entryAt? place with
    | some .folder =>
      2 + tree.entries.countP fun e =>
        match e.2 with
        | .folder => e.1.length = place.length + 1 && e.1.dropLast = place
        | .file .. => false
    | _ => 1
  | .error _ => 1

/-- The path of a name inside a folder. -/
def join (folder name : String) : String :=
  if name.startsWith "/" then name
  else if folder = "" || folder.endsWith "/" then folder ++ name
  else folder ++ "/" ++ name

/-- The folder that a path lies in. -/
def parentOf (path : String) : String :=
  let back := path.toList.reverse
  let back := (back.dropWhile (· = '/')).dropWhile (· ≠ '/')
  String.ofList (back.dropWhile (· = '/')).reverse

end FileTree

end Mustache
