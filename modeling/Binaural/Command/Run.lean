import Binaural.Command.Arguments
import Binaural.Compile
import Binaural.Recording.Load
import Binaural.Settings

/-!
Commands on a file system.

Everything that can fail comes before the one write at the end, so a command that fails leaves the
file system as it was.
-/

namespace Binaural

/-- A file system with the text of an artifact at a path. -/
def Artifact.write (t : FileTree) (output : Path) (text : String) :
    Except (CompileError Float) FileTree :=
  match t.write output text.toUTF8 with
  | .error fault => .error (.io .write (.file output fault))
  | .ok t => .ok t

/-- The compiled dataset below a directory, and the text of its artifact. -/
def compileText (t : FileTree) (input : Path) (config : Config Float) (extras : Extras)
    (format : OutputFormat) : Except (Failure Float) (ImpulseTable Float × String) := do
  let dataset ← Failure.ofError (Recording.loadDataset t input)
  let table ← compile dataset config
  let text ← Failure.ofError (Artifact.render (some table) extras format)
  .ok (table, text)

/-- The dataset below a directory compiled and written to a path. The file system is changed only
if all goes well. -/
def compileToPath (t : FileTree) (input output : Path) (config : Config Float) (extras : Extras)
    (format : OutputFormat) : Except (Failure Float) (ImpulseTable Float) × FileTree :=
  match compileText t input config extras format with
  | .error e => (.error e, t)
  | .ok (table, text) =>
    match Artifact.write t output text with
    | .error e => (.error (.error e), t)
    | .ok written => (.ok table, written)

/-- Why a command fails. -/
structure CommandError where
  /-- The directory that was being compiled, if it had come to that. -/
  input : Option Path
  failure : Failure Float

/-- The report of a failed command; a broken promise has none of its own. -/
def CommandError.message (e : CommandError) : String :=
  let context :=
    match e.input with
    | some path => "Compiling " ++ path.text ++ ": "
    | none => ""
  match e.failure with
  | .error e => context ++ e.message
  | .violation v => context ++ v.message?.getD ""

namespace Command

/-- The settings of a compilation: those of the file or the defaults, with the length that the
arguments ask for. -/
def settings (t : FileTree) (a : CompileArguments) : Except (CompileError Float) (Config Float) :=
  let config := match a.config with
    | some path => Settings.ofFile t path
    | none => .ok .default
  config.map fun c => { c with finalLength := a.finalLength.getD c.finalLength }

/-- The extras of a compilation. -/
def extras (a : CompileArguments) : Extras :=
  ⟨if a.primes then some Primes.defaultLimit else none⟩

/-- A compilation as the arguments ask for it. -/
def runCompile (t : FileTree) (a : CompileArguments) : Except CommandError Unit × FileTree :=
  match settings t a with
  | .error e => (.error ⟨none, .error e⟩, t)
  | .ok config =>
    match compileToPath t a.input a.output config (extras a) a.format with
    | (.error e, t) => (.error ⟨some a.input, e⟩, t)
    | (.ok _, t) => (.ok (), t)

/-- The table of primes written as the arguments ask for it. -/
def runPrimes (t : FileTree) (a : PrimesArguments) : Except CommandError Unit × FileTree :=
  let written := do
    let text ← Artifact.render none ⟨some a.limit⟩ a.format
    Artifact.write t a.output text
  match written with
  | .error e => (.error ⟨none, .error e⟩, t)
  | .ok t => (.ok (), t)

/-- What a command does to a file system. -/
def run (t : FileTree) : Command → Except CommandError Unit × FileTree
  | .compile a => runCompile t a
  | .primes a => runPrimes t a

end Command

end Binaural
