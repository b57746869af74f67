import Binaural.Command.Run

/-!
The command line.

What a command can look at is read into a `FileTree` first. The command itself is a function on that
value, and the artifact is taken from the result.
-/

namespace Binaural.CommandLine

def entryAt? (path : Path) : IO (Option FileEntry) := do
  try
    let found ← IO.FS.realPath path.text
    if ← found.isDir then return some .directory
    return some (.file (← IO.FS.readBinFile path.text))
  catch _ => return none

def placeOf (path : Path) : List String :=
  path.names.foldl FileTree.step (FileTree.start path)

/-- A file system with what is at a path. -/
def withPath (t : FileTree) (path : Path) : IO FileTree := do
  match ← entryAt? path with
  | some entry => return (t.insertParents (placeOf path)).insert (placeOf path) entry
  | none => return t

/-- The paths that lead to a path, itself the last. -/
def pathsTo (path : Path) : List Path :=
  let steps := if path.isAbsolute then "/" :: path.names else path.names
  (List.range steps.length).map fun n => (steps.take (n + 1)).foldl Path.join ⟨""⟩

/-- A file system with what is on the way to a path and at it. -/
def withWay (t : FileTree) (path : Path) : IO FileTree :=
  (pathsTo path).foldlM withPath t

/-- A file system with those entries of a directory that have a wanted name, and their paths. -/
def withEntries (t : FileTree) (directory : Path) (wanted : String → Bool) :
    IO (FileTree × List Path) := do
  try
    let names := (← (← IO.FS.realPath directory.text).readDir).toList.map fun e => e.fileName
    let paths := (names.filter wanted).map directory.join
    return (← paths.foldlM withPath t, paths)
  catch _ => return (t, [])

def withRecordings (t : FileTree) (root : Path) : IO FileTree := do
  let (t, directories) ← withEntries (← withWay t root) root Recording.isElevationName
  directories.foldlM (fun t directory => do
    return (← withEntries t directory Recording.isRecordingName).1) t

/-- The part of the file system that a command looks at. -/
def surroundings : Command → IO FileTree
  | .primes a => withWay .empty a.output
  | .compile a => do
    let t ← withRecordings .empty a.input
    let t ← a.config.elim (pure t) (withWay t)
    withWay t a.output

/-- Runs a command and writes its artifact. -/
def run (command : Command) : IO UInt32 := do
  match command.run (← surroundings command) with
  | (.error e, _) =>
    IO.eprintln e.message
    return 1
  | (.ok (), t) =>
    match t.read command.output with
    | .ok artifact =>
      IO.FS.writeBinFile command.output.text artifact
      return 0
    | .error fault =>
      IO.eprintln fault.message
      return 1

end Binaural.CommandLine

/-- The program: 0 for success and for help, 1 for a command that failed, 2 for arguments that are
not accepted. -/
def main (arguments : List String) : IO UInt32 := do
  match Binaural.Arguments.parse arguments with
  | .ok command => Binaural.CommandLine.run command
  | .error .help =>
    IO.println Binaural.Arguments.usage
    return 0
  | .error e =>
    IO.eprintln (e.message ++ "\n" ++ Binaural.Arguments.usage)
    return 2
