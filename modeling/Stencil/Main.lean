import Stencil.CommandLine.Run

/-!
# The program

Reads the files that a command line is about, carries it out and writes its report.
-/

namespace Stencil

private def placeOf (path : String) : List String := ((pathParts path).foldl addPart []).reverse

private def addFile (t : FileTree) (path : String) : IO FileTree := do
  try
    let file := (← IO.currentDir) / path
    let modified := (← file.metadata).modified
    let stamp := (modified.sec * 1000000000).toNat + modified.nsec.toNat
    return { t with files := (placeOf file.toString, ⟨← IO.FS.readBinFile file, stamp⟩) :: t.files }
  catch _ => return t

private def addDirectory (t : FileTree) (path : String) : IO FileTree := do
  try
    let directory := (← IO.currentDir) / path
    (← directory.walkDir).foldlM (fun t file => do
      if ← file.isDir then return t else addFile t file.toString) t
  catch _ => return t

private def filesFor (i : Invocation) : IO FileTree := do
  let context :=
    match i.command with
    | .render _ context _ => context
    | .check _ => none
  let t : FileTree := ⟨placeOf (← IO.currentDir).toString, []⟩
  let t ← (i.config.toList ++ context.toList).foldlM addFile t
  (i.directories t).foldlM addDirectory t

private def reportFor (args : List String) : IO Report := do
  match CommandLine.parse args with
  | .ok i => return i.run (← filesFor i)
  | .error r => return r.report

end Stencil

def main (args : List String) : IO UInt32 := do
  let report ← Stencil.reportFor args
  (← IO.getStdout).putStr report.output
  if let some e := report.error then
    IO.eprintln e.display
    for line in e.help do
      IO.eprintln line
  return report.code.toUInt32
