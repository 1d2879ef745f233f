/-
The program. It reads from the disk what a command may need, has the command carried
out on it, and prints what comes of it. Worker processes are run inside this one.
-/

import Reanalysis.Commands

namespace Reanalysis

namespace Disk

private def textOf (place : Place) : String := "/" ++ String.intercalate "/" place

private def nodeAt? (place : Place) : IO (Option Node) := do
  let path := (← IO.currentDir) / textOf place
  match ← (path.metadata).toBaseIO with
  | .error _ => pure none
  | .ok data =>
      match data.type with
      | .dir =>
          match ← (path.readDir).toBaseIO with
          | .ok _ => pure (some .directory)
          | .error _ => pure (some .lockedDirectory)
      | .file =>
          match ← (IO.FS.readBinFile path).toBaseIO with
          | .ok content => pure (some (.file content.toList))
          | .error _ => pure (some .lockedFile)
      | _ => pure (some .special)

private def add (tree : FileTree) (place : Place) : IO FileTree := do
  match ← nodeAt? place with
  | some .directory => pure (tree.makeDirectory place)
  | some node => pure ((tree.makeDirectory place.dropLast).put place node)
  | none => pure tree

/-- Adds everything that a path passes on its way from the top. -/
private def addAlong (tree : FileTree) (path : SourcePath) : IO FileTree := do
  let mut grown := tree
  let mut place : Place := []
  for component in path.components do
    match component with
    | .name text =>
        place := place ++ [text]
        grown ← add grown place
    | .parent => place := place.dropLast
    | .root => pure ()
    | .here => pure ()
  pure grown

private partial def addBelow (tree : FileTree) (place : Place) : IO FileTree := do
  let grown ← add tree place
  if !grown.isOpenAt place then pure grown
  else
    let mut filled := grown
    for entry in ← ((← IO.currentDir) / textOf place).readDir do
      filled ← addBelow filled (place ++ [entry.fileName])
    pure filled

private def directories (path : SourcePath) : List SourcePath :=
  (List.range (path.components.length + 1)).map fun count =>
    SourcePath.ofComponents (path.components.take count)

/-- The files of the project that the settings lead to, and the current directory. -/
def gather (settings : Settings) : IO (FileTree × SourcePath) := do
  let here : SourcePath := ⟨(← IO.currentDir).toString⟩
  let asked := (settings.config.map here.join).toList
  let mut tree := FileTree.empty
  for directory in directories here ++ asked do
    tree ← addAlong tree directory
    tree ← addAlong tree (directory.join Config.fileName)
  match Project.locate tree here settings.config with
  | .error _ => pure ()
  | .ok path =>
      match (path.absolute here).directory.bind tree.directoryAt? with
      | none => pure ()
      | some place => tree ← addBelow tree place
  pure (tree, here)

end Disk

namespace Terminal

private def print (printed : Printed) : IO Unit := do
  let out ← IO.getStdout
  let errors ← IO.getStderr
  out.putStr printed.out
  out.flush
  errors.putStr printed.err
  errors.flush

private def finish (exit : Exit) : IO UInt32 := do
  print exit.printed
  pure (UInt32.ofNat exit.code)

private partial def watchOn (settings : Settings) (watch : Commands.Watch) : IO Unit := do
  IO.sleep (UInt32.ofNat watch.interval)
  let (tree, _) ← Disk.gather settings
  let (next, printed) := watch.look tree
  print printed
  watchOn settings next

private partial def readLine (input : IO.FS.Stream) (line : ByteArray) : IO ByteArray := do
  let byte ← input.read 1
  if byte.isEmpty || byte.toList = [0x0A] then pure (line ++ byte)
  else readLine input (line ++ byte)

private partial def serve (settings : Settings) (process : WorkerProcess) : IO Unit := do
  let input ← IO.getStdin
  let output ← IO.getStdout
  let line ← readLine input ByteArray.empty
  let (tree, _) ← Disk.gather settings
  let last := line.toList.getLast? ≠ some 0x0A
  let (answer, next) :=
    match process.deliver line.toList tree with
    | none => ([], process)
    | some (answer, next) =>
        if last then
          let (rest, left) := next.finish tree
          (answer ++ rest, left)
        else (answer, next)
  output.write (ByteArray.mk answer.toArray)
  output.flush
  if last || next.isOver then pure () else serve settings next

def run (arguments : List String) : IO UInt32 := do
  let terminal ← (← IO.getStderr).isTty
  match CommandLine.parse arguments with
  | .run settings errand =>
      let (tree, here) ← Disk.gather settings
      match errand with
      | .watch interval inProcess =>
          match Commands.Watch.start settings interval inProcess terminal tree here with
          | .error exit => finish exit
          | .ok (watch, printed) =>
              print printed
              watchOn settings watch
              pure 0
      | .worker engine =>
          match Commands.worker settings engine tree here with
          | .error explanation => finish (Exit.failed explanation)
          | .ok process =>
              serve settings process
              pure 0
      | .check format inProcess =>
          finish (Commands.check settings format inProcess terminal tree here)
  | other => finish (Commands.run other terminal FileTree.empty ⟨"/"⟩)

end Terminal

end Reanalysis

def main (arguments : List String) : IO UInt32 := Reanalysis.Terminal.run arguments
