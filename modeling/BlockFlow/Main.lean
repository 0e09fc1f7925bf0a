import BlockFlow.CommandLine.Basic
import BlockFlow.Files.Changes
import BlockFlow.Shell.Launcher

/-! # The program

Reads what a call looks at into a file tree, carries the call out, and makes the changes. -/

namespace BlockFlow.Main

/-- Adds what is at a place on the disk, and below it.  Links are taken for the files that they lead
to. -/
partial def readEntry (e : IO.FS.DirEntry) (files : FileTree) : IO FileTree := do
  let p : Path := e.path.toString
  match ← e.path.symlinkMetadata.toBaseIO with
  | .error _ => return files
  | .ok m =>
    match m.type with
    | .dir => do
      let files := (files.createDirectories p).1
      (← e.path.readDir).foldlM (fun files e => readEntry e files) files
    | _ =>
      match ← (IO.FS.readBinFile p).toBaseIO with
      | .error _ => return files
      | .ok content => do
        let files := (files.createDirectories (FileTree.pathTo p.names.dropLast)).1
        return (files.write p content).toOption.getD files

/-- Makes the changes that lead from one tree to another. -/
def writeChanges (before after : FileTree) : IO Unit := do
  for l in before.locationsNotIn after do
    match before.get? l with
    | some .directory => IO.FS.removeDir (FileTree.pathTo l)
    | _ => IO.FS.removeFile (FileTree.pathTo l)
  for (l, entry) in after.entriesNotIn before do
    match entry with
    | .directory => IO.FS.createDirAll (FileTree.pathTo l)
    | .file content => IO.FS.writeBinFile (FileTree.pathTo l) content
    | .link _ => pure ()

/-- Carries a call out on the files of the disk. -/
def run (args : List String) : IO UInt32 := do
  let directory : Path := (← IO.currentDir).toString
  let temporary : Path := (← IO.getEnv "TMPDIR").getD "/tmp"
  let bare := (FileTree.createDirectories {} directory).1
  let bare := (bare.createDirectories temporary).1
  let files ← (CommandLine.footprint directory args).foldlM
    (fun files p => readEntry { root := "/", fileName := "/".intercalate p.names } files) bare
  let surroundings := { directory, temporary, launcher := Shell.launcher }
  let (after, outcome) := CommandLine.run surroundings args files
  writeChanges files after
  IO.print outcome.output
  IO.eprint outcome.complaint
  return UInt32.ofNat outcome.code

end BlockFlow.Main

/-- The program. -/
def main (args : List String) : IO UInt32 := BlockFlow.Main.run args
