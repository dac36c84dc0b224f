import Mustache.CommandLine
/-!
# Mustache — the program

Reads the files that the arguments speak of and leaves everything else to
`CommandLine.run`: the template, the data, and whatever lies in the folder
of partials.
-/

open Mustache

/-- Permissions of the files that are read; nothing looks at them. -/
def readMode : Nat := 0o644

/-- The tree with a file, given by its path and its bytes. -/
def withFile (files : FileTree) (path : String) (bytes : ByteArray) : FileTree :=
  let written := do
    let files ← files.makeFolders (FileTree.parentOf path)
    files.write path bytes.toList readMode 0
  match written with
  | .ok files => files
  | .error _ => files

/-- The tree with the file at a path, if it can be read. -/
def addFile (files : FileTree) (path : String) : IO FileTree := do
  match ← (IO.FS.readBinFile path).toBaseIO with
  | .ok bytes => return withFile files path bytes
  | .error _ => return files

/-- The tree with a folder and all that lies in it, if it is one. -/
partial def addFolder (files : FileTree) (path : String) : IO FileTree := do
  let folder := (← IO.currentDir) / path
  if !(← folder.isDir) then return files
  let mut files :=
    match files.makeFolders path with
    | .ok files => files
    | .error _ => files
  for entry in ← folder.readDir do
    let inner := FileTree.join path entry.fileName
    files ← if ← entry.path.isDir then addFolder files inner else addFile files inner
  return files

/-- The files that a job needs. -/
def filesFor (job : CommandLine.Job) : IO FileTree := do
  let here := (← IO.currentDir).toString
  let mut files := FileTree.empty "" (FileTree.namesOf here)
  if let .ok made := files.makeFolders here then files := made
  files ← addFile files job.template
  if let some path := job.data then files ← addFile files path
  if let some path := job.partials then files ← addFolder files path
  return files

/-- Render as the arguments say. -/
def main (args : List String) : IO UInt32 := do
  let files ←
    match CommandLine.Request.ofArguments? args with
    | some (.render job) => filesFor job
    | _ => pure (FileTree.empty "" [])
  match CommandLine.run files args with
  | .ok text =>
    IO.print text
    return 0
  | .error trouble =>
    IO.eprintln trouble.message
    return UInt32.ofNat trouble.code
