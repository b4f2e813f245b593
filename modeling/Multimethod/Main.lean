import Multimethod.Session.Program

/-!
# Running the program

The outer layer of the program: it hands over the arguments, the lines of standard input and the
files that are asked for, and writes what appears. A stretch of work that asks for files not read
yet is done again once they are.
-/

namespace Multimethod.Program

/-- The entry of a file on disk, if there is one. -/
def entryOnDisk (path : String) : IO (Option FileEntry) := do
  try
    return some (.ofBytes (← IO.FS.readBinFile path))
  catch
    | .inappropriateType .. => return some .directory
    | _ => return none

/-- Adds those files on disk that were not looked for before. -/
def addFiles (files : Files) (tried : List String) : List String → IO (Files × List String)
  | [] => return (files, tried)
  | path :: rest => do
    if tried.contains path then addFiles files tried rest
    else
      let files := match ← entryOnDisk path with
        | some entry => files.add path entry
        | none => files
      addFiles files (path :: tried) rest

def Stage.withFiles (files : Files) : Stage → Stage
  | .interacting s => .interacting { s with interpreter := { s.interpreter with files } }
  | stage => stage

/-- Does a stretch of work again until it asks for no file that was not looked for. -/
partial def settle (work : Files → Option Stage) (files : Files) (tried : List String) :
    IO (Option Stage × Files × List String) := do
  match work files with
  | none => return (none, files, tried)
  | some stage =>
    if stage.asked.all tried.contains then return (some stage, files, tried)
    else
      let (files, tried) ← addFiles files tried stage.asked
      settle work files tried

/-- Writes what has appeared since an earlier report. -/
def writeNews (before after : Report) : IO Unit := do
  let stdout ← IO.getStdout
  stdout.putStr (after.printed.drop before.printed.length).toString
  stdout.flush
  let stderr ← IO.getStderr
  stderr.putStr (after.console.drop before.console.length).toString
  stderr.flush

/-- The bytes of standard input up to the end of the line, added to those read before. -/
partial def lineBytes (stdin : IO.FS.Stream) (read : ByteArray) : IO ByteArray := do
  let byte ← stdin.read 1
  let read := read ++ byte
  if byte.isEmpty || byte.data.contains 10 then return read else lineBytes stdin read

/-- The next line of standard input, none at its end. -/
def nextLine : IO (Option InputLines) := do
  let bytes ← lineBytes (← IO.getStdin) ByteArray.empty
  return if bytes.isEmpty then none else some (InputLines.ofBytes bytes)

/-- The exit code of a run that was given up for lack of depth. -/
def giveUp : IO UInt32 := do
  IO.eprintln "evaluation is nested too deeply"
  return 1

/-- Feeds standard input to the interactive loop until the run has ended. -/
partial def feed (stage : Stage) (files : Files) (tried : List String) : IO UInt32 := do
  match stage with
  | .ended report _ => return report.exitCode.toUInt32
  | .interacting _ =>
    let input ← nextLine
    let work := match input with
      | some lines => advance (Repl.lines lines)
      | none => advance Repl.finish
    match ← settle (fun files => work (stage.withFiles files)) files tried with
    | (none, _, _) => giveUp
    | (some next, files, tried) =>
      writeNews stage.report next.report
      if input.isNone then return next.report.exitCode.toUInt32 else feed next files tried

/-- Runs the program. -/
def runOn (args : List String) : IO UInt32 := do
  let base := (← IO.currentDir).toString
  let (files, tried) ← addFiles { base } [] (firstFiles args base)
  match ← settle (start args) files tried with
  | (none, _, _) => giveUp
  | (some stage, files, tried) =>
    writeNews {} stage.report
    feed stage files tried

end Multimethod.Program

def main (args : List String) : IO UInt32 := Multimethod.Program.runOn args
