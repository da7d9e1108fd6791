/-
# The program

Loads the part of the working directory that a report depends on, runs the report command on it,
and does what its outcome says: it writes the report if there is a new one, and prints.
-/

import GraphAnalytics.Report.CommandLine

namespace GraphAnalytics.Report

/-- Load an entry of a directory with all that is below it. A file that is no text is loaded as if
it were empty, which no measurement is. -/
partial def load (entry : IO.FS.DirEntry) : IO (String × Tree) := do
  if ← entry.path.isDir then
    return (entry.fileName, .directory (← (← entry.path.readDir).toList.mapM load))
  else
    return (entry.fileName, .file (← try IO.FS.readFile entry.path catch _ => pure ""))

/-- Load what the working directory holds under a path of names, as a tree with that path. -/
def loadPath (path : List String) : IO (List (String × Tree)) := do
  let directory := path.dropLast.foldl (· / ·) (← IO.currentDir)
  let entry : IO.FS.DirEntry := { root := directory, fileName := path.getLastD "" }
  if ← entry.path.pathExists then
    return path.dropLast.foldr (fun name entries => [(name, .directory entries)]) [← load entry]
  else
    return []

def store (report : String) : IO Unit := do
  let directory := reportPath.dropLast.foldl (· / ·) (← IO.currentDir)
  IO.FS.createDirAll directory
  IO.FS.writeFile (directory / reportPath.getLastD "") report

end GraphAnalytics.Report

open GraphAnalytics.Report in
/-- Run the report command in the working directory. -/
def main (arguments : List String) : IO UInt32 := do
  let files : Tree :=
    .directory ((← loadPath measurementsPath) ++ (← loadPath (reportPath.take 1)))
  let outcome := run arguments files
  let report := outcome.files.text? reportPath
  if report ≠ files.text? reportPath then
    if let some text := report then store text
  IO.print outcome.out
  IO.eprint outcome.err
  return UInt32.ofNat outcome.code
